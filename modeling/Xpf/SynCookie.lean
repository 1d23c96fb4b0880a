/-
SYN cookies: `userspace-dp/src/screen/syncookie.rs`, and where `screen/mod.rs` mints and
checks them.

A cookie is an initial sequence number of five bits of the epoch it is minted in, three bits
of an index of segment sizes and 24 bits of a keyed hash. The epoch is 64 seconds of the wall
clock, latched so that it never goes back. A node that gets the cookie back takes the epoch,
of the three around its own latch, whose low bits are those of the cookie, and checks the
hash under the keys of the rotation period that this epoch falls in. The keys are derived
from published bases for the periods before, at and after the latch's.

The keyed hashes are parameters: nothing here depends on what they compute.
-/
import Mathlib
import Xpf.Runs
import Xpf.SessionKeys

set_option autoImplicit false

namespace Xpf.SynCookie

open Xpf.Runs
open Xpf.Sessions (IpAddr)

def u64Max : ℕ := 2 ^ 64 - 1

/-! ## The codec -/

def synCookieEpochMask : BitVec 32 := 31
def synCookieMssMask : BitVec 32 := 7
def synCookieMacMask : BitVec 32 := 0xFFFFFF
def synCookieEpochShift : ℕ := 27
def synCookieMssShift : ℕ := 24
def epochSecs : ℕ := 64

def synCookieMssValues : List ℕ := [536, 1200, 1300, 1360, 1400, 1440, 1460, 8960]

structure SynCookieTuple where
  srcIp : IpAddr
  dstIp : IpAddr
  srcPort : UInt16
  dstPort : UInt16
  deriving DecidableEq, Repr

abbrev SynCookieZoneTag := UInt64 × UInt64

structure SynCookieValidation where
  fullEpoch : ℕ
  mssIndex : ℕ
  mss : ℕ
  deriving DecidableEq, Repr

/-- The keyed hashes: `derive_epoch_key`, and the low word of the hash that `cookie_mac` cuts
to its bits. -/
structure Hashes (Base Key : Type) where
  deriveEpochKey : Base → ℕ → Key
  cookieHash : Key → SynCookieTuple → SynCookieZoneTag → ℕ → ℕ → BitVec 32

def fullEpochFromUnixSecs (unixSecs : ℕ) : ℕ := unixSecs / epochSecs

/-- The largest size not above the peer's. -/
def mssIndex (peerMss : ℕ) : ℕ :=
  (List.range' 1 7).foldl (fun selected i => if synCookieMssValues.getD i 0 ≤ peerMss then i else selected) 0

def wireEpoch (cookieIsn : BitVec 32) : BitVec 32 := (cookieIsn >>> synCookieEpochShift) &&& synCookieEpochMask

def candidateValidationEpochs (currentFullEpoch : ℕ) : List ℕ :=
  [min (currentFullEpoch + 1) u64Max, currentFullEpoch, currentFullEpoch - 1]

/-- Whether an epoch has the cookie's low bits. -/
def epochMatches (cookieIsn : BitVec 32) (epoch : ℕ) : Bool :=
  BitVec.ofNat 32 epoch &&& synCookieEpochMask == wireEpoch cookieIsn

def cookieFullEpoch (currentFullEpoch : ℕ) (cookieIsn : BitVec 32) : Option ℕ :=
  (candidateValidationEpochs currentFullEpoch).find? (epochMatches cookieIsn)

def wireEpochMatchesValidationWindow (currentFullEpoch : ℕ) (cookieIsn : BitVec 32) : Bool :=
  (candidateValidationEpochs currentFullEpoch).any (epochMatches cookieIsn)

section

variable {Base Key : Type} (h : Hashes Base Key)

def cookieMac (masterKey : Key) (tuple : SynCookieTuple) (zoneTag : SynCookieZoneTag) (fullEpoch mssIndex : ℕ) :
    BitVec 32 :=
  h.cookieHash masterKey tuple zoneTag fullEpoch mssIndex &&& synCookieMacMask

def mintIsn (masterKey : Key) (tuple : SynCookieTuple) (zoneTag : SynCookieZoneTag) (fullEpoch peerMss : ℕ) :
    BitVec 32 :=
  ((BitVec.ofNat 32 fullEpoch &&& synCookieEpochMask) <<< synCookieEpochShift)
    ||| ((BitVec.ofNat 32 (mssIndex peerMss) &&& synCookieMssMask) <<< synCookieMssShift)
    ||| cookieMac h masterKey tuple zoneTag fullEpoch (mssIndex peerMss)

/-- `SynCookieCodec::validate_isn_at_epoch`. -/
def validateIsnAtEpoch (masterKey : Key) (tuple : SynCookieTuple) (zoneTag : SynCookieZoneTag) (fullEpoch : ℕ)
    (cookieIsn : BitVec 32) : Option SynCookieValidation :=
  let index := ((cookieIsn >>> synCookieMssShift) &&& synCookieMssMask).toNat
  let wireMac := cookieIsn &&& synCookieMacMask
  if cookieMac h masterKey tuple zoneTag fullEpoch index = wireMac then
    some ⟨fullEpoch, index, synCookieMssValues.getD index 0⟩
  else none

end

/-! ## The key ring -/

structure SynCookieRingBase (Base : Type) where
  base : Base
  acceptOnly : Bool
  deriving DecidableEq

structure SynCookieRingEntry (Key : Type) where
  rotationEpoch : ℕ
  acceptOnly : Bool
  codec : Key
  deriving DecidableEq

structure SynCookieKeyRing (Base Key : Type) where
  present : Bool
  periodEpochs : ℕ
  bases : List (SynCookieRingBase Base)
  /-- The rotation epoch that `entries` were derived around. -/
  derivedFor : Option ℕ
  entries : List (SynCookieRingEntry Key)

namespace SynCookieKeyRing

variable {Base Key : Type}

def default : SynCookieKeyRing Base Key := ⟨false, 0, [], none, []⟩

def failedClosed : SynCookieKeyRing Base Key := { default with present := true }

def new (periodSecs : ℕ) (bases : List (Base × Bool)) : SynCookieKeyRing Base Key :=
  if periodSecs = 0 || periodSecs % epochSecs ≠ 0 then failedClosed
  else ⟨true, periodSecs / epochSecs, bases.map fun b => ⟨b.1, b.2⟩, none, []⟩

variable (h : Hashes Base Key) (ring : SynCookieKeyRing Base Key)

/-- `checked_div`. -/
def rotationEpoch (fullEpoch : ℕ) : Option ℕ :=
  if ring.periodEpochs = 0 then none else some (fullEpoch / ring.periodEpochs)

/-- The keys of the rotation epochs before, at and after the given one. -/
def derivedEntries (bases : List (SynCookieRingBase Base)) (rotation : ℕ) : List (SynCookieRingEntry Key) :=
  (List.range' (rotation - 1) (min (rotation + 1) u64Max + 1 - (rotation - 1))).flatMap fun epoch =>
    bases.map fun b => ⟨epoch, b.acceptOnly, h.deriveEpochKey b.base epoch⟩

def refresh (fullEpoch : ℕ) : SynCookieKeyRing Base Key :=
  match ring.rotationEpoch fullEpoch with
  | none => ring
  | some rotation =>
    if ring.derivedFor = some rotation then ring
    else { ring with entries := derivedEntries h ring.bases rotation, derivedFor := some rotation }

def mintCodec (fullEpoch : ℕ) : Option Key :=
  match ring.rotationEpoch fullEpoch with
  | none => none
  | some rotation => (ring.entries.find? fun e => !e.acceptOnly && e.rotationEpoch == rotation).map (·.codec)

def mintCodecOrLegacy (fullEpoch : ℕ) (legacy : Key) : Option Key :=
  if ring.present then ring.mintCodec fullEpoch else some legacy

/-- `SynCookieKeyRing::validate_isn_at_epoch`. -/
def validateIsnAtEpoch (tuple : SynCookieTuple) (zoneTag : SynCookieZoneTag) (fullEpoch : ℕ) (cookieIsn : BitVec 32) :
    Bool :=
  match ring.rotationEpoch fullEpoch with
  | none => false
  | some rotation =>
    (ring.entries.filter fun e => e.rotationEpoch == rotation).any fun e =>
      (SynCookie.validateIsnAtEpoch h e.codec tuple zoneTag fullEpoch cookieIsn).isSome

def validates (legacy : Key) (tuple : SynCookieTuple) (zoneTag : SynCookieZoneTag) (fullEpoch : ℕ)
    (cookieIsn : BitVec 32) : Bool :=
  if ring.present then ring.validateIsnAtEpoch h tuple zoneTag fullEpoch cookieIsn
  else (SynCookie.validateIsnAtEpoch h legacy tuple zoneTag fullEpoch cookieIsn).isSome

/-- The latch after a reading, and the keys derived for it. -/
def latch (latched raw : ℕ) : ℕ × SynCookieKeyRing Base Key :=
  let epoch := max latched raw
  (epoch, ring.refresh h epoch)

end SynCookieKeyRing

/-! ## A node -/

/-- What the control plane publishes: no ring, one that cannot be read, or the period and the
bases, each with whether it is for accepting only. -/
inductive Published (Base : Type)
  | absent
  | malformed
  | ring (periodSecs : ℕ) (bases : List (Base × Bool))

def Published.toRing {Base Key : Type} : Published Base → SynCookieKeyRing Base Key
  | .absent => .default
  | .malformed => .failedClosed
  | .ring periodSecs bases => .new periodSecs bases

/-- The part of `ScreenState` that cookies are minted and checked with. -/
structure ScreenState (Base Key : Type) where
  synCookieKeyRing : SynCookieKeyRing Base Key
  synCookieLastFullEpoch : ℕ
  synCookieEpochWallSecs : ℕ
  synCookieEpochClockMonoSecs : ℕ

/-- The monotonic second of a packet, and the wall clock as it would be read in it. -/
structure Reading where
  monoNowSecs : UInt64
  wallSecs : UInt64

namespace ScreenState

variable {Base Key : Type}

def new : ScreenState Base Key := ⟨.default, 0, 0, u64Max⟩

variable (h : Hashes Base Key) (s : ScreenState Base Key)

def updateSynCookieKeys (published : Published Base) : ScreenState Base Key :=
  { s with synCookieKeyRing := published.toRing }

/-- The wall clock is read once in a monotonic second. -/
def currentSynCookieFullEpoch (r : Reading) : ℕ × ScreenState Base Key :=
  let s :=
    if s.synCookieEpochClockMonoSecs ≠ r.monoNowSecs.toNat then
      { s with synCookieEpochWallSecs := r.wallSecs.toNat, synCookieEpochClockMonoSecs := r.monoNowSecs.toNat }
    else s
  let epoch := fullEpochFromUnixSecs s.synCookieEpochWallSecs
  let (latched, ring) := s.synCookieKeyRing.latch h s.synCookieLastFullEpoch epoch
  (latched, { s with synCookieKeyRing := ring, synCookieLastFullEpoch := latched })

/-- The cookie of a challenge, minted in the latched epoch. -/
def mintCookie (legacy : Key) (r : Reading) (tuple : SynCookieTuple) (zoneTag : SynCookieZoneTag) (peerMss : ℕ) :
    Option (BitVec 32) × ScreenState Base Key :=
  let (fullEpoch, s) := s.currentSynCookieFullEpoch h r
  ((s.synCookieKeyRing.mintCodecOrLegacy fullEpoch legacy).map fun codec => mintIsn h codec tuple zoneTag fullEpoch peerMss, s)

/-- Whether the cookie of an acknowledgement is accepted. -/
def acceptsCookie (legacy : Key) (r : Reading) (tuple : SynCookieTuple) (zoneTag : SynCookieZoneTag)
    (cookieIsn : BitVec 32) : Bool × ScreenState Base Key :=
  let (currentEpoch, s) := s.currentSynCookieFullEpoch h r
  if !wireEpochMatchesValidationWindow currentEpoch cookieIsn then (false, s)
  else
    match cookieFullEpoch currentEpoch cookieIsn with
    | some epoch => (s.synCookieKeyRing.validates h legacy tuple zoneTag epoch cookieIsn, s)
    | none => (false, s)

end ScreenState

/-- What a node goes through: a publication, or a reading of the clocks by a packet. -/
inductive Event (Base : Type)
  | keys (published : Published Base)
  | packet (r : Reading)

def step {Base Key : Type} (h : Hashes Base Key) (s : ScreenState Base Key) : Event Base → ScreenState Base Key
  | .keys published => s.updateSynCookieKeys published
  | .packet r => (s.currentSynCookieFullEpoch h r).2

/-- A node after what it has gone through. -/
def node {Base Key : Type} (h : Hashes Base Key) (events : List (Event Base)) : ScreenState Base Key :=
  run (step h) .new events

/-! ## The fields of a cookie -/

/-- A cookie is the sum of its three fields in their places. -/
theorem toNat_packed (x y z : BitVec 32) :
    (((x &&& synCookieEpochMask) <<< synCookieEpochShift) ||| ((y &&& synCookieMssMask) <<< synCookieMssShift)
        ||| (z &&& synCookieMacMask)).toNat
      = x.toNat % 2 ^ 5 * 2 ^ 27 + y.toNat % 2 ^ 3 * 2 ^ 24 + z.toNat % 2 ^ 24 := by
  have hx : x.toNat % 2 ^ 5 < 2 ^ 5 := Nat.mod_lt _ (by decide)
  have hy : y.toNat % 2 ^ 3 < 2 ^ 3 := Nat.mod_lt _ (by decide)
  have hz : z.toNat % 2 ^ 24 < 2 ^ 24 := Nat.mod_lt _ (by decide)
  have hepoch : ((x &&& synCookieEpochMask) <<< synCookieEpochShift).toNat = x.toNat % 2 ^ 5 * 2 ^ 27 := by
    rw [BitVec.toNat_shiftLeft, BitVec.toNat_and, show synCookieEpochMask.toNat = 2 ^ 5 - 1 from rfl,
      Nat.and_two_pow_sub_one_eq_mod, Nat.shiftLeft_eq, synCookieEpochShift]
    exact Nat.mod_eq_of_lt (by omega)
  have hmss : ((y &&& synCookieMssMask) <<< synCookieMssShift).toNat = y.toNat % 2 ^ 3 * 2 ^ 24 := by
    rw [BitVec.toNat_shiftLeft, BitVec.toNat_and, show synCookieMssMask.toNat = 2 ^ 3 - 1 from rfl,
      Nat.and_two_pow_sub_one_eq_mod, Nat.shiftLeft_eq, synCookieMssShift]
    exact Nat.mod_eq_of_lt (by omega)
  have hmac : (z &&& synCookieMacMask).toNat = z.toNat % 2 ^ 24 := by
    rw [BitVec.toNat_and, show synCookieMacMask.toNat = 2 ^ 24 - 1 from rfl, Nat.and_two_pow_sub_one_eq_mod]
  rw [BitVec.toNat_or, BitVec.toNat_or, hepoch, hmss, hmac, ← Nat.shiftLeft_eq _ 27,
    ← Nat.shiftLeft_add_eq_or_of_lt (show y.toNat % 2 ^ 3 * 2 ^ 24 < 2 ^ 27 by omega), Nat.shiftLeft_eq,
    show x.toNat % 2 ^ 5 * 2 ^ 27 + y.toNat % 2 ^ 3 * 2 ^ 24 = (x.toNat % 2 ^ 5 * 2 ^ 3 + y.toNat % 2 ^ 3) * 2 ^ 24 by omega,
    ← Nat.shiftLeft_eq _ 24, ← Nat.shiftLeft_add_eq_or_of_lt hz]

theorem toNat_wireEpoch (isn : BitVec 32) : (wireEpoch isn).toNat = isn.toNat / 2 ^ 27 % 2 ^ 5 := by
  rw [wireEpoch, BitVec.toNat_and, BitVec.toNat_ushiftRight, show synCookieEpochMask.toNat = 2 ^ 5 - 1 from rfl,
    Nat.and_two_pow_sub_one_eq_mod, synCookieEpochShift, Nat.shiftRight_eq_div_pow]

theorem epochMatches_iff (isn : BitVec 32) (epoch : ℕ) :
    epochMatches isn epoch = true ↔ epoch % 2 ^ 5 = isn.toNat / 2 ^ 27 % 2 ^ 5 := by
  have hlow : (BitVec.ofNat 32 epoch &&& synCookieEpochMask).toNat = epoch % 2 ^ 5 := by
    rw [BitVec.toNat_and, BitVec.toNat_ofNat, show synCookieEpochMask.toNat = 2 ^ 5 - 1 from rfl,
      Nat.and_two_pow_sub_one_eq_mod, Nat.mod_mod_of_dvd _ (by decide)]
  rw [epochMatches, beq_iff_eq, ← BitVec.toNat_inj, hlow, toNat_wireEpoch]

theorem mssIndex_lt (peerMss : ℕ) : mssIndex peerMss < 8 := by
  have hfold : ∀ (l : List ℕ) (start : ℕ), start < 8 → (∀ i ∈ l, i < 8) →
      l.foldl (fun selected i => if synCookieMssValues.getD i 0 ≤ peerMss then i else selected) start < 8 := by
    intro l
    induction l with
    | nil => exact fun start hstart _ => hstart
    | cons i l ih =>
      intro start hstart hl
      rw [List.foldl_cons]
      refine ih _ ?_ fun j hj => hl j (List.mem_cons_of_mem _ hj)
      split
      · exact hl i List.mem_cons_self
      · exact hstart
  exact hfold _ 0 (by decide) (by decide)

section

variable {Base Key : Type} {h : Hashes Base Key} {key : Key} {tuple : SynCookieTuple} {tag : SynCookieZoneTag}
  {epoch peerMss : ℕ}

theorem toNat_mintIsn :
    (mintIsn h key tuple tag epoch peerMss).toNat
      = epoch % 2 ^ 5 * 2 ^ 27 + mssIndex peerMss * 2 ^ 24
        + (cookieMac h key tuple tag epoch (mssIndex peerMss)).toNat
      ∧ (cookieMac h key tuple tag epoch (mssIndex peerMss)).toNat < 2 ^ 24 := by
  have hmss := mssIndex_lt peerMss
  have hmac : (cookieMac h key tuple tag epoch (mssIndex peerMss)).toNat
      = (h.cookieHash key tuple tag epoch (mssIndex peerMss)).toNat % 2 ^ 24 := by
    rw [cookieMac, BitVec.toNat_and, show synCookieMacMask.toNat = 2 ^ 24 - 1 from rfl,
      Nat.and_two_pow_sub_one_eq_mod]
  have hlt : (h.cookieHash key tuple tag epoch (mssIndex peerMss)).toNat % 2 ^ 24 < 2 ^ 24 :=
    Nat.mod_lt _ (by decide)
  rw [mintIsn, cookieMac, toNat_packed, ← cookieMac, hmac, BitVec.toNat_ofNat, BitVec.toNat_ofNat,
    Nat.mod_mod_of_dvd _ (by decide), Nat.mod_mod_of_dvd _ (by decide), Nat.mod_eq_of_lt (b := 2 ^ 3) hmss]
  exact ⟨rfl, hlt⟩

/-- The five bits of the epoch. -/
theorem epochMatches_mintIsn (x : ℕ) :
    epochMatches (mintIsn h key tuple tag epoch peerMss) x = true ↔ x % 2 ^ 5 = epoch % 2 ^ 5 := by
  obtain ⟨hisn, hmac⟩ := @toNat_mintIsn _ _ h key tuple tag epoch peerMss
  have hmss := mssIndex_lt peerMss
  rw [epochMatches_iff, hisn]
  omega

/-- The check of a minted cookie, under its key and in its epoch, passes. -/
theorem validateIsnAtEpoch_mintIsn :
    (validateIsnAtEpoch h key tuple tag epoch (mintIsn h key tuple tag epoch peerMss)).isSome = true := by
  obtain ⟨hisn, hmac⟩ := @toNat_mintIsn _ _ h key tuple tag epoch peerMss
  have hmss := mssIndex_lt peerMss
  have hindex : ((mintIsn h key tuple tag epoch peerMss >>> synCookieMssShift) &&& synCookieMssMask).toNat
      = mssIndex peerMss := by
    rw [BitVec.toNat_and, BitVec.toNat_ushiftRight, show synCookieMssMask.toNat = 2 ^ 3 - 1 from rfl,
      Nat.and_two_pow_sub_one_eq_mod, synCookieMssShift, Nat.shiftRight_eq_div_pow, hisn]
    omega
  have hwire : mintIsn h key tuple tag epoch peerMss &&& synCookieMacMask
      = cookieMac h key tuple tag epoch (mssIndex peerMss) := by
    rw [← BitVec.toNat_inj, BitVec.toNat_and, show synCookieMacMask.toNat = 2 ^ 24 - 1 from rfl,
      Nat.and_two_pow_sub_one_eq_mod, hisn]
    omega
  rw [validateIsnAtEpoch, hindex, hwire, if_pos rfl]
  rfl

end

/-! ## The window of epochs -/

/-- Two epochs are at most one apart. -/
def Near (current epoch : ℕ) : Prop := current ≤ epoch + 1 ∧ epoch ≤ current + 1

/-- The candidates are the epochs at most one from the latch. -/
theorem near_of_mem_candidates {current epoch : ℕ} (hcurrent : current ≤ u64Max)
    (hmem : epoch ∈ candidateValidationEpochs current) : Near current epoch := by
  simp only [candidateValidationEpochs, List.mem_cons, List.not_mem_nil, or_false] at hmem
  rw [Near]
  omega

theorem near_of_cookieFullEpoch {current epoch : ℕ} {isn : BitVec 32} (hcurrent : current ≤ u64Max)
    (hresolve : cookieFullEpoch current isn = some epoch) : Near current epoch :=
  near_of_mem_candidates hcurrent (List.mem_of_find?_eq_some hresolve)

/-- Of the candidates, those with the low bits of an epoch in the window are that epoch. -/
theorem find?_candidates {current epoch : ℕ} {p : ℕ → Bool} (hp : ∀ x, p x = true ↔ x % 2 ^ 5 = epoch % 2 ^ 5)
    (hcurrent : current ≤ u64Max) (hepoch : epoch ≤ u64Max) (hnear : Near current epoch) :
    (candidateValidationEpochs current).find? p = some epoch := by
  obtain ⟨hlow, hhigh⟩ := hnear
  have hdecided : ∀ x, Near current x → x ≠ epoch → p x = false := by
    intro x hx hne
    rw [Bool.eq_false_iff, ne_eq, hp]
    obtain ⟨hxlow, hxhigh⟩ := hx
    omega
  have hmatch : p epoch = true := (hp epoch).mpr rfl
  have hnear := @near_of_mem_candidates current
  rw [candidateValidationEpochs] at hnear ⊢
  rcases Nat.lt_trichotomy epoch current with hbefore | heq | hafter
  · have hfirst : p (min (current + 1) u64Max) = false :=
      hdecided _ (hnear hcurrent List.mem_cons_self) (by omega)
    have hsecond : p current = false :=
      hdecided _ (hnear hcurrent (List.mem_cons_of_mem _ List.mem_cons_self)) (by omega)
    rw [List.find?_cons_of_neg (by rw [hfirst]; exact Bool.false_ne_true),
      List.find?_cons_of_neg (by rw [hsecond]; exact Bool.false_ne_true),
      show current - 1 = epoch by omega, List.find?_cons_of_pos hmatch]
  · by_cases hmax : min (current + 1) u64Max = epoch
    · rw [hmax, List.find?_cons_of_pos hmatch]
    · have hfirst : p (min (current + 1) u64Max) = false := hdecided _ (hnear hcurrent List.mem_cons_self) hmax
      rw [List.find?_cons_of_neg (by rw [hfirst]; exact Bool.false_ne_true), ← heq, List.find?_cons_of_pos hmatch]
  · rw [show min (current + 1) u64Max = epoch by omega, List.find?_cons_of_pos hmatch]

/-- Rotation periods of epochs at most one apart are at most one apart. -/
theorem rotation_near {current epoch period : ℕ} (hperiod : 0 < period) (hepoch : epoch ≤ u64Max)
    (hnear : Near current epoch) :
    current / period - 1 ≤ epoch / period ∧ epoch / period ≤ min (current / period + 1) u64Max := by
  obtain ⟨hlow, hhigh⟩ := hnear
  have hstep : ∀ a b : ℕ, a ≤ b + 1 → a / period ≤ b / period + 1 := by
    intro a b hab
    calc a / period ≤ (b + period) / period := Nat.div_le_div_right (by omega)
      _ = b / period + 1 := Nat.add_div_right b hperiod
  have hafter := hstep epoch current hhigh
  have hbefore := hstep current epoch hlow
  have hself := Nat.div_le_self epoch period
  refine ⟨Nat.sub_le_of_le_add hbefore, ?_⟩
  rw [Nat.le_min]
  exact ⟨hafter, Nat.le_trans hself hepoch⟩

/-! ## The keys of a ring -/

namespace SynCookieKeyRing

variable {Base Key : Type} {h : Hashes Base Key} {ring : SynCookieKeyRing Base Key}

/-- The entries are those of the rotation epoch they were derived around, and a ring with bases
has been published with a whole number of epochs a period. -/
structure Sound (h : Hashes Base Key) (ring : SynCookieKeyRing Base Key) : Prop where
  derived : ∀ rotation, ring.derivedFor = some rotation → ring.entries = derivedEntries h ring.bases rotation
  usable : ring.bases ≠ [] → ring.present = true ∧ 0 < ring.periodEpochs

theorem sound_default : Sound h (default : SynCookieKeyRing Base Key) := by
  refine ⟨?_, ?_⟩
  · intro rotation hderived
    cases hderived
  · intro hbases
    exact absurd rfl hbases

theorem sound_failedClosed : Sound h (failedClosed : SynCookieKeyRing Base Key) := by
  refine ⟨?_, ?_⟩
  · intro rotation hderived
    cases hderived
  · intro hbases
    exact absurd rfl hbases

theorem sound_new (periodSecs : ℕ) (bases : List (Base × Bool)) :
    Sound h (new periodSecs bases : SynCookieKeyRing Base Key) := by
  rw [new]
  split
  · exact sound_failedClosed
  · next hperiod =>
    rw [Bool.or_eq_true, decide_eq_true_eq, decide_eq_true_eq, not_or, not_not] at hperiod
    refine ⟨?_, fun _ => ⟨rfl, ?_⟩⟩
    · intro rotation hderived
      cases hderived
    · rw [epochSecs] at hperiod ⊢
      dsimp only
      omega

theorem refresh_bases (epoch : ℕ) :
    (ring.refresh h epoch).bases = ring.bases ∧ (ring.refresh h epoch).present = ring.present
      ∧ (ring.refresh h epoch).periodEpochs = ring.periodEpochs := by
  rw [refresh]
  split
  · exact ⟨rfl, rfl, rfl⟩
  · split <;> exact ⟨rfl, rfl, rfl⟩

theorem Sound.refresh (hs : Sound h ring) (epoch : ℕ) : Sound h (ring.refresh h epoch) := by
  obtain ⟨hbases, hpresent, hperiod⟩ := @refresh_bases _ _ h ring epoch
  refine ⟨?_, by rw [hbases, hpresent, hperiod]; exact hs.usable⟩
  rw [SynCookieKeyRing.refresh]
  split
  · exact hs.derived
  · split
    · exact hs.derived
    · intro rotation' heq
      cases heq
      rfl

/-- After a refresh the keys are those around the epoch's rotation. -/
theorem Sound.refresh_entries (hs : Sound h ring) (hperiod : 0 < ring.periodEpochs) (epoch : ℕ) :
    (ring.refresh h epoch).entries = derivedEntries h ring.bases (epoch / ring.periodEpochs) := by
  have hrotation : ring.rotationEpoch epoch = some (epoch / ring.periodEpochs) := if_neg (Nat.ne_of_gt hperiod)
  rw [SynCookieKeyRing.refresh, hrotation]
  dsimp only
  split
  · next hsame => exact hs.derived _ hsame
  · rfl

theorem mem_derivedEntries {bases : List (SynCookieRingBase Base)} {rotation epoch : ℕ}
    (hlow : rotation - 1 ≤ epoch) (hhigh : epoch ≤ min (rotation + 1) u64Max) {b : SynCookieRingBase Base}
    (hb : b ∈ bases) :
    (⟨epoch, b.acceptOnly, h.deriveEpochKey b.base epoch⟩ : SynCookieRingEntry Key) ∈ derivedEntries h bases rotation := by
  rw [derivedEntries, List.mem_flatMap]
  refine ⟨epoch, ?_, List.mem_map.mpr ⟨b, hb, rfl⟩⟩
  rw [List.mem_range'_1]
  omega

/-- A search that only one element of the list can answer. -/
theorem findSome?_eq {α β : Type} {f : α → Option β} {a : α} (hother : ∀ x, x ≠ a → f x = none) {l : List α}
    (ha : a ∈ l) : l.findSome? f = f a := by
  induction l with
  | nil => exact absurd ha List.not_mem_nil
  | cons x l ih =>
    rw [List.findSome?_cons]
    by_cases hx : x = a
    · rw [hx]
      cases hfa : f a with
      | some b => rfl
      | none =>
        dsimp only
        by_cases hmem : a ∈ l
        · rw [ih hmem, hfa]
        · rw [List.findSome?_eq_none_iff]
          intro y hy
          exact hother y fun heq => hmem (heq ▸ hy)
    · rw [hother x hx]
      exact ih ((List.mem_cons.mp ha).resolve_left fun heq => hx heq.symm)

/-- The base that cookies are minted under: the first that is not for accepting only. -/
def mintBase (ring : SynCookieKeyRing Base Key) : Option (SynCookieRingBase Base) :=
  ring.bases.find? fun b => !b.acceptOnly

/-- After a refresh for the epoch, cookies are minted under the key of that base for the
epoch's rotation. -/
theorem Sound.mintCodec (hs : Sound h ring) {b : SynCookieRingBase Base} (hb : ring.mintBase = some b) {epoch : ℕ}
    (hepoch : epoch ≤ u64Max) :
    (ring.refresh h epoch).mintCodec epoch = some (h.deriveEpochKey b.base (epoch / ring.periodEpochs)) := by
  have hne : ring.bases ≠ [] := by
    intro hnil
    rw [mintBase, hnil] at hb
    cases hb
  have hperiod := (hs.usable hne).2
  obtain ⟨-, -, hsame⟩ := @refresh_bases _ _ h ring epoch
  have hrotation : (ring.refresh h epoch).rotationEpoch epoch = some (epoch / ring.periodEpochs) := by
    rw [rotationEpoch, hsame, if_neg (Nat.ne_of_gt hperiod)]
  have hwithin := rotation_near hperiod hepoch ⟨Nat.le_succ epoch, Nat.le_succ epoch⟩
  generalize hr : epoch / ring.periodEpochs = rotation at hrotation hwithin ⊢
  have hother : ∀ x, x ≠ rotation →
      (ring.bases.map fun b => (⟨x, b.acceptOnly, h.deriveEpochKey b.base x⟩ : SynCookieRingEntry Key)).find?
        (fun e => !e.acceptOnly && e.rotationEpoch == rotation) = none := by
    intro x hx
    rw [List.find?_eq_none]
    intro e he
    obtain ⟨b', -, rfl⟩ := List.mem_map.mp he
    simp [hx]
  rw [SynCookieKeyRing.mintCodec, hrotation, hs.refresh_entries hperiod, hr, derivedEntries]
  dsimp only
  rw [List.find?_flatMap, findSome?_eq hother (a := rotation) (List.mem_range'_1.mpr (by omega)), List.find?_map]
  have hfirst : ring.bases.find? ((fun e : SynCookieRingEntry Key => !e.acceptOnly && e.rotationEpoch == rotation)
      ∘ fun b => ⟨rotation, b.acceptOnly, h.deriveEpochKey b.base rotation⟩) = some b := by
    rw [← hb, mintBase]
    congr 1
    funext b'
    simp
  rw [hfirst]
  rfl

/-- A cookie minted under a base that the ring holds validates in its epoch, from any latch at
most one away. -/
theorem Sound.validates_mintIsn (hs : Sound h ring) {b : SynCookieRingBase Base} (hb : b ∈ ring.bases)
    {current epoch : ℕ} (hepoch : epoch ≤ u64Max) (hnear : Near current epoch) (legacy : Key)
    (tuple : SynCookieTuple) (tag : SynCookieZoneTag) (peerMss : ℕ) :
    (ring.refresh h current).validates h legacy tuple tag epoch
      (mintIsn h (h.deriveEpochKey b.base (epoch / ring.periodEpochs)) tuple tag epoch peerMss) = true := by
  obtain ⟨hpresent, hperiod⟩ := hs.usable (List.ne_nil_of_mem hb)
  obtain ⟨-, hsame, hsamePeriod⟩ := @refresh_bases _ _ h ring current
  have hrotation : (ring.refresh h current).rotationEpoch epoch = some (epoch / ring.periodEpochs) := by
    rw [rotationEpoch, hsamePeriod, if_neg (Nat.ne_of_gt hperiod)]
  obtain ⟨hlow, hhigh⟩ := rotation_near hperiod hepoch hnear
  have hentry := mem_derivedEntries (h := h) hlow hhigh hb
  rw [← hs.refresh_entries hperiod] at hentry
  rw [validates, hsame, hpresent, if_pos rfl, SynCookieKeyRing.validateIsnAtEpoch, hrotation]
  dsimp only
  rw [List.any_eq_true]
  exact ⟨_, List.mem_filter.mpr ⟨hentry, beq_self_eq_true _⟩, validateIsnAtEpoch_mintIsn⟩

/-- What a check compares the cookie with: the hash, under some key, of the epoch it is given. -/
theorem cookieMac_of_validates {legacy : Key} {tuple : SynCookieTuple} {tag : SynCookieZoneTag} {epoch : ℕ}
    {isn : BitVec 32} (hvalid : ring.validates h legacy tuple tag epoch isn = true) :
    ∃ key, cookieMac h key tuple tag epoch ((isn >>> synCookieMssShift) &&& synCookieMssMask).toNat
      = isn &&& synCookieMacMask := by
  have hsome : ∀ key, (SynCookie.validateIsnAtEpoch h key tuple tag epoch isn).isSome = true →
      cookieMac h key tuple tag epoch ((isn >>> synCookieMssShift) &&& synCookieMssMask).toNat
        = isn &&& synCookieMacMask := by
    intro key hkey
    by_contra hne
    rw [SynCookie.validateIsnAtEpoch, if_neg hne] at hkey
    cases hkey
  rw [validates] at hvalid
  split at hvalid
  · rw [SynCookieKeyRing.validateIsnAtEpoch] at hvalid
    split at hvalid
    · cases hvalid
    · obtain ⟨e, -, he⟩ := List.any_eq_true.mp hvalid
      exact ⟨e.codec, hsome _ he⟩
  · exact ⟨legacy, hsome _ hvalid⟩

end SynCookieKeyRing

/-! ## Nodes -/

section

variable {Base Key : Type} {h : Hashes Base Key} {s : ScreenState Base Key}

open ScreenState SynCookieKeyRing

/-- What holds of a node whatever it goes through. -/
structure Steady (h : Hashes Base Key) (s : ScreenState Base Key) : Prop where
  ring : s.synCookieKeyRing.Sound h
  latched : s.synCookieLastFullEpoch ≤ u64Max
  wall : s.synCookieEpochWallSecs ≤ u64Max

/-- A reading latches an epoch and refreshes the ring for it. -/
theorem currentSynCookieFullEpoch_spec (s : ScreenState Base Key) (r : Reading) :
    (s.currentSynCookieFullEpoch h r).2.synCookieKeyRing
        = s.synCookieKeyRing.refresh h (s.currentSynCookieFullEpoch h r).1
      ∧ (s.currentSynCookieFullEpoch h r).2.synCookieLastFullEpoch = (s.currentSynCookieFullEpoch h r).1
      ∧ s.synCookieLastFullEpoch ≤ (s.currentSynCookieFullEpoch h r).1 := by
  rw [currentSynCookieFullEpoch]
  dsimp only [SynCookieKeyRing.latch]
  split
  · exact ⟨rfl, rfl, Nat.le_max_left _ _⟩
  · exact ⟨rfl, rfl, Nat.le_max_left _ _⟩

theorem currentSynCookieFullEpoch_le (hs : Steady h s) (r : Reading) :
    (s.currentSynCookieFullEpoch h r).1 ≤ u64Max
      ∧ (s.currentSynCookieFullEpoch h r).2.synCookieEpochWallSecs ≤ u64Max := by
  have hread : r.wallSecs.toNat ≤ u64Max := Nat.le_sub_one_of_lt r.wallSecs.toNat_lt
  have hepoch : ∀ secs : ℕ, secs ≤ u64Max → fullEpochFromUnixSecs secs ≤ u64Max :=
    fun secs hsecs => Nat.le_trans (Nat.div_le_self _ _) hsecs
  rw [currentSynCookieFullEpoch]
  dsimp only [SynCookieKeyRing.latch]
  split
  · exact ⟨Nat.max_le.mpr ⟨hs.latched, hepoch _ hread⟩, hread⟩
  · exact ⟨Nat.max_le.mpr ⟨hs.latched, hepoch _ hs.wall⟩, hs.wall⟩

theorem steady_new : Steady h (ScreenState.new : ScreenState Base Key) :=
  ⟨sound_default, Nat.zero_le _, Nat.zero_le _⟩

theorem Steady.step (hs : Steady h s) (event : Event Base) : Steady h (step h s event) := by
  cases event with
  | keys published =>
    refine ⟨?_, hs.latched, hs.wall⟩
    cases published with
    | absent => exact sound_default
    | malformed => exact sound_failedClosed
    | ring periodSecs bases => exact sound_new periodSecs bases
  | packet r =>
    obtain ⟨hring, hlatched, -⟩ := currentSynCookieFullEpoch_spec (h := h) s r
    obtain ⟨hle, hwall⟩ := currentSynCookieFullEpoch_le hs r
    refine ⟨?_, Nat.le_trans (Nat.le_of_eq hlatched) hle, hwall⟩
    rw [SynCookie.step, hring]
    exact hs.ring.refresh _

theorem steady_node (events : List (Event Base)) : Steady h (node h events) :=
  run_invariant steady_new (fun _ event hs => hs.step event) events

/-- The latch of a node never goes back. -/
theorem latch_le_step (s : ScreenState Base Key) (event : Event Base) :
    s.synCookieLastFullEpoch ≤ (step h s event).synCookieLastFullEpoch := by
  cases event with
  | keys published => exact Nat.le_refl _
  | packet r =>
    obtain ⟨-, hlatched, hle⟩ := currentSynCookieFullEpoch_spec (h := h) s r
    exact Nat.le_trans hle (Nat.le_of_eq hlatched.symm)

/-- A node that has a base to mint under mints. -/
theorem mintCookie_eq (hs : Steady h s) {b : SynCookieRingBase Base} (hb : s.synCookieKeyRing.mintBase = some b)
    (legacy : Key) (r : Reading) (tuple : SynCookieTuple) (tag : SynCookieZoneTag) (peerMss : ℕ) :
    (s.mintCookie h legacy r tuple tag peerMss).1
      = some (mintIsn h (h.deriveEpochKey b.base
          ((s.currentSynCookieFullEpoch h r).1 / s.synCookieKeyRing.periodEpochs)) tuple tag
          (s.currentSynCookieFullEpoch h r).1 peerMss) := by
  obtain ⟨hring, -, -⟩ := currentSynCookieFullEpoch_spec (h := h) s r
  have hle := (currentSynCookieFullEpoch_le hs r).1
  have hmem : b ∈ s.synCookieKeyRing.bases := List.mem_of_find?_eq_some hb
  have hpresent := (hs.ring.usable (List.ne_nil_of_mem hmem)).1
  rw [mintCookie]
  dsimp only
  rw [hring, mintCodecOrLegacy, (refresh_bases _).2.1, hpresent, if_pos rfl, hs.ring.mintCodec hb hle]
  rfl

/-- A check is of the epoch the cookie resolves to. -/
theorem acceptsCookie_eq (legacy : Key) (r : Reading) (tuple : SynCookieTuple) (tag : SynCookieZoneTag)
    (isn : BitVec 32) :
    (s.acceptsCookie h legacy r tuple tag isn).1
      = match cookieFullEpoch (s.currentSynCookieFullEpoch h r).1 isn with
        | some epoch => (s.synCookieKeyRing.refresh h (s.currentSynCookieFullEpoch h r).1).validates h legacy tuple tag epoch isn
        | none => false := by
  obtain ⟨hring, -, -⟩ := currentSynCookieFullEpoch_spec (h := h) s r
  rw [acceptsCookie]
  dsimp only
  cases hfind : cookieFullEpoch (s.currentSynCookieFullEpoch h r).1 isn with
  | none => split <;> rfl
  | some epoch =>
    have hany : wireEpochMatchesValidationWindow (s.currentSynCookieFullEpoch h r).1 isn = true :=
      List.any_eq_true.mpr ⟨epoch, List.mem_of_find?_eq_some hfind, List.find?_some hfind⟩
    rw [hany, ← hring]
    rfl

end

/-- Cookies across nodes, whatever keyed hashes are used and whatever each node has gone
through. A node with a base to mint under mints, in its latched epoch, a cookie of which holds:
on every node that holds that base for the same rotation period and is latched at most one
epoch away, it resolves to that epoch and is accepted; on a node latched further away it
resolves, if at all, to a different epoch, and is accepted only if its hash is that of this
other epoch. And no step of a node takes its latch back. -/
theorem cookie_windows {Base Key : Type} (h : Hashes Base Key) :
    (∀ (events : List (Event Base)) (r : Reading) (b : SynCookieRingBase Base) (legacy : Key)
        (tuple : SynCookieTuple) (tag : SynCookieZoneTag) (peerMss : ℕ),
      (node h events).synCookieKeyRing.mintBase = some b →
      ∃ isn, ((node h events).mintCookie h legacy r tuple tag peerMss).1 = some isn
        ∧ ∀ (events' : List (Event Base)) (r' : Reading) (legacy' : Key),
          (Near ((node h events').currentSynCookieFullEpoch h r').1 ((node h events).currentSynCookieFullEpoch h r).1 →
              (∃ b' ∈ (node h events').synCookieKeyRing.bases, b'.base = b.base) →
              (node h events').synCookieKeyRing.periodEpochs = (node h events).synCookieKeyRing.periodEpochs →
              cookieFullEpoch ((node h events').currentSynCookieFullEpoch h r').1 isn
                  = some ((node h events).currentSynCookieFullEpoch h r).1
                ∧ ((node h events').acceptsCookie h legacy' r' tuple tag isn).1 = true)
            ∧ (¬ Near ((node h events').currentSynCookieFullEpoch h r').1 ((node h events).currentSynCookieFullEpoch h r).1 →
              cookieFullEpoch ((node h events').currentSynCookieFullEpoch h r').1 isn
                  ≠ some ((node h events).currentSynCookieFullEpoch h r).1
                ∧ ∀ (tuple' : SynCookieTuple) (tag' : SynCookieZoneTag),
                  ((node h events').acceptsCookie h legacy' r' tuple' tag' isn).1 = true →
                  ∃ epoch key, epoch ≠ ((node h events).currentSynCookieFullEpoch h r).1
                    ∧ cookieMac h key tuple' tag' epoch ((isn >>> synCookieMssShift) &&& synCookieMssMask).toNat
                      = isn &&& synCookieMacMask))
      ∧ ∀ (s : ScreenState Base Key) (event : Event Base),
        s.synCookieLastFullEpoch ≤ (step h s event).synCookieLastFullEpoch := by
  refine ⟨?_, latch_le_step⟩
  intro events r b legacy tuple tag peerMss hb
  have hs := @steady_node _ _ h events
  have hepoch := (currentSynCookieFullEpoch_le hs r).1
  refine ⟨_, mintCookie_eq hs hb legacy r tuple tag peerMss, ?_⟩
  intro events' r' legacy'
  have hs' := @steady_node _ _ h events'
  have hcurrent := (currentSynCookieFullEpoch_le hs' r').1
  refine ⟨?_, ?_⟩
  · intro hnear hholds hperiod
    obtain ⟨b', hb', hbase⟩ := hholds
    have hresolve : cookieFullEpoch ((node h events').currentSynCookieFullEpoch h r').1
        (mintIsn h (h.deriveEpochKey b.base (((node h events).currentSynCookieFullEpoch h r).1
          / (node h events).synCookieKeyRing.periodEpochs)) tuple tag
          ((node h events).currentSynCookieFullEpoch h r).1 peerMss)
        = some ((node h events).currentSynCookieFullEpoch h r).1 :=
      find?_candidates epochMatches_mintIsn hcurrent hepoch hnear
    refine ⟨hresolve, ?_⟩
    rw [acceptsCookie_eq, hresolve, ← hbase, ← hperiod]
    exact hs'.ring.validates_mintIsn hb' hepoch hnear legacy' tuple tag peerMss
  · intro hfar
    have hother : ∀ isn epoch, cookieFullEpoch ((node h events').currentSynCookieFullEpoch h r').1 isn = some epoch →
        epoch ≠ ((node h events).currentSynCookieFullEpoch h r).1 := by
      intro isn epoch hresolve heq
      exact hfar (heq ▸ near_of_cookieFullEpoch hcurrent hresolve)
    refine ⟨fun hresolve => hother _ _ hresolve rfl, ?_⟩
    intro tuple' tag' haccepted
    rw [acceptsCookie_eq] at haccepted
    split at haccepted
    · next epoch hresolve =>
      obtain ⟨key, hkey⟩ := SynCookieKeyRing.cookieMac_of_validates haccepted
      exact ⟨epoch, key, hother _ _ hresolve, hkey⟩
    · cases haccepted

/-- Hashes that only tell keys and epochs apart. -/
def plainHashes : Hashes ℕ ℕ := ⟨fun base epoch => base + epoch, fun key _ _ epoch _ => BitVec.ofNat 32 (key + epoch)⟩

/-- A base of a one-epoch period, to mint under on one node and to accept on the other. -/
def minting : List (Event ℕ) := [.keys (.ring 64 [(7, false)])]

def accepting : List (Event ℕ) := [.keys (.ring 64 [(9, false), (7, true)])]

/-- A cookie minted in one period is accepted in the next. -/
theorem cookie_windows_nextPeriod :
    ∃ isn, ((node plainHashes minting).mintCookie plainHashes 0 ⟨1, 640⟩ ⟨.v4 1, .v4 2, 3, 4⟩ (5, 6) 1460).1 = some isn
      ∧ ((node plainHashes accepting).acceptsCookie plainHashes 0 ⟨1, 704⟩ ⟨.v4 1, .v4 2, 3, 4⟩ (5, 6) isn).1 = true := by
  obtain ⟨hwindow, -⟩ := cookie_windows plainHashes
  obtain ⟨isn, hminted, hnodes⟩ :=
    hwindow minting ⟨1, 640⟩ ⟨7, false⟩ 0 ⟨.v4 1, .v4 2, 3, 4⟩ (5, 6) 1460 (by decide +kernel)
  have hnear : Near ((node plainHashes accepting).currentSynCookieFullEpoch plainHashes ⟨1, 704⟩).1
      ((node plainHashes minting).currentSynCookieFullEpoch plainHashes ⟨1, 640⟩).1 := by
    refine ⟨?_, ?_⟩ <;> decide +kernel
  have hholds : ∃ b' ∈ (node plainHashes accepting).synCookieKeyRing.bases, b'.base = 7 :=
    ⟨⟨7, true⟩, by decide +kernel, rfl⟩
  exact ⟨isn, hminted, ((hnodes accepting ⟨1, 704⟩ 0).1 hnear hholds (by decide +kernel)).2⟩

end Xpf.SynCookie
