/-
The replay window of a WireGuard session: `userspace-dp/src/afxdp/wg/session.rs`.

The window is a ring of 128 blocks of 64 bits. Counter `c` has bit `c % 64` of the block
`c / 64 % 128`, so a counter shares its bit with those that differ from it by a multiple of
8192. The ring is exact for the 128 blocks up to the block of the highest counter: when the
highest counter moves on, the blocks it passes are cleared, and a block is passed before it is
used again. A counter at most 8128 below the highest one lies in one of these blocks.
-/
import Xpf.Bitmap
import Xpf.Runs

set_option autoImplicit false

namespace Xpf.WgReplay

open Xpf.Bitmap

/-! ## The window -/

def blockBits : ℕ := 64
def blockBitLog : ℕ := 6
def ringBlocks : ℕ := 128
def blockMask : ℕ := ringBlocks - 1
def bitMask : ℕ := blockBits - 1

def replayWindow : ℕ := (ringBlocks - 1) * blockBits

structure ReplayState where
  counter : UInt64
  backtrack : List Word
  size : backtrack.length = ringBlocks

inductive ReplayDecision
  | accept
  | repeated
  | outOfWindow
  deriving DecidableEq, Repr

/-- The blocks `current + 1` to `current + n`, cleared in this order. -/
def clearBlocks (ws : List Word) (current : ℕ) : ℕ → List Word
  | 0 => ws
  | n + 1 => (clearBlocks ws current n).set ((current + n + 1) &&& blockMask) 0

@[simp] theorem length_clearBlocks (ws : List Word) (current n : ℕ) : (clearBlocks ws current n).length = ws.length := by
  induction n with
  | zero => rfl
  | succ n ih => simp [clearBlocks, ih]

namespace ReplayState

def default : ReplayState := ⟨0, List.replicate ringBlocks 0, List.length_replicate⟩

def definitelyOutOfWindow (s : ReplayState) (c : UInt64) : Bool := s.counter.toNat - c.toNat > replayWindow

/-- A new highest counter. -/
def advance (s : ReplayState) (c : UInt64) : ReplayState :=
  let current := s.counter.toNat >>> blockBitLog
  let diff := min ((c.toNat >>> blockBitLog) - current) ringBlocks
  { counter := c
    backtrack := clearBlocks s.backtrack current diff
    size := (length_clearBlocks _ _ _).trans s.size }

/-- Test the counter's bit and set it. -/
def mark (s : ReplayState) (c : UInt64) : ReplayDecision × ReplayState :=
  let block := (c.toNat >>> blockBitLog) &&& blockMask
  let mask := 1#64 <<< (c.toNat &&& bitMask)
  if s.backtrack.getD block 0 &&& mask ≠ 0 then (.repeated, s)
  else
    (.accept,
      { s with
        backtrack := s.backtrack.modify block (· ||| mask)
        size := (List.length_modify ..).trans s.size })

def checkAndUpdate (s : ReplayState) (c : UInt64) : ReplayDecision × ReplayState :=
  if c > s.counter then (s.advance c).mark c
  else if s.counter.toNat - c.toNat > replayWindow then (.outOfWindow, s)
  else s.mark c

end ReplayState

/-! ## Bits of the ring -/

/-- Where a counter has its bit. -/
def slot (x : ℕ) : ℕ := x % 8192

theorem and_blockMask (n : ℕ) : n &&& blockMask = n % 128 := Nat.and_two_pow_sub_one_eq_mod n 7

theorem and_bitMask (n : ℕ) : n &&& bitMask = n % 64 := Nat.and_two_pow_sub_one_eq_mod n 6

theorem shiftRight_blockBitLog (n : ℕ) : n >>> blockBitLog = n / 64 := Nat.shiftRight_eq_div_pow n 6

theorem slot_div (x : ℕ) : slot x / 64 = x / 64 % 128 := by
  unfold slot
  omega

theorem slot_mod (x : ℕ) : slot x % 64 = x % 64 := by
  unfold slot
  omega

theorem mark_test (s : ReplayState) (c : UInt64) :
    s.mark c = if test s.backtrack (slot c.toNat) then (.repeated, s)
      else (.accept, ⟨s.counter, set s.backtrack (slot c.toNat), (length_set _ _).trans s.size⟩) := by
  have hmask : 1#64 <<< (c.toNat &&& bitMask) = Bitmap.mask (slot c.toNat) := by
    rw [Bitmap.mask, slot_mod, and_bitMask]
  have hblock : (c.toNat >>> blockBitLog) &&& blockMask = slot c.toNat / 64 := by
    rw [shiftRight_blockBitLog, and_blockMask, slot_div]
  simp only [ReplayState.mark, hmask, hblock, test, Bitmap.set, decide_eq_true_eq]

theorem test_set_zero {ws : List Word} {k j : ℕ} (hk : k < ws.length) :
    test (ws.set k 0) j = (decide (j / 64 ≠ k) && test ws j) := by
  rw [test_eq, test_eq]
  by_cases h : j / 64 = k
  · subst h
    simp [List.getD_eq_getElem?_getD, hk]
  · simp [List.getD_eq_getElem?_getD, h, Ne.symm h]

/-- Clearing forgets the bits of the blocks passed over and of no other block. -/
theorem test_clearBlocks {ws : List Word} (hlen : ws.length = 128) (current n j : ℕ) :
    test (clearBlocks ws current n) j = true ↔
      test ws j = true ∧ ∀ i, current < i → i ≤ current + n → i % 128 ≠ j / 64 := by
  induction n with
  | zero =>
    simp only [clearBlocks]
    refine ⟨fun h => ⟨h, fun i _ _ => by omega⟩, fun h => h.1⟩
  | succ n ih =>
    have hk : (current + n + 1) &&& blockMask < (clearBlocks ws current n).length := by
      rw [length_clearBlocks, hlen, and_blockMask]
      exact Nat.mod_lt _ (by decide)
    rw [clearBlocks, test_set_zero hk, Bool.and_eq_true, ih, decide_eq_true_eq, and_blockMask]
    constructor
    · rintro ⟨hlast, htest, hrest⟩
      refine ⟨htest, fun i hlo hhi => ?_⟩
      rcases Nat.lt_or_ge i (current + n + 1) with hlt | hge
      · exact hrest i hlo (by omega)
      · obtain rfl : i = current + n + 1 := by omega
        exact Ne.symm hlast
    · rintro ⟨htest, hall⟩
      exact ⟨Ne.symm (hall _ (by omega) (by omega)), htest, fun i hlo hhi => hall i hlo (by omega)⟩

/-! ## What the ring stands for -/

/-- The highest of the accepted counters, and zero before the first. -/
def highest (accepted : List UInt64) : ℕ := (accepted.map UInt64.toNat).foldr max 0

@[simp] theorem highest_nil : highest [] = 0 := rfl

theorem highest_append (accepted : List UInt64) (c : UInt64) : highest (accepted ++ [c]) = max (highest accepted) c.toNat := by
  induction accepted with
  | nil => simp [highest]
  | cons a l ih =>
    simp only [highest, List.cons_append, List.map_cons, List.foldr_cons] at ih ⊢
    rw [ih, max_assoc]

theorem le_highest {accepted : List UInt64} {c : UInt64} (hc : c ∈ accepted) : c.toNat ≤ highest accepted := by
  induction accepted with
  | nil => cases hc
  | cons a l ih =>
    simp only [highest, List.map_cons, List.foldr_cons]
    rcases List.mem_cons.mp hc with rfl | hc
    · exact le_max_left _ _
    · exact le_trans (ih hc) (le_max_right _ _)

/-- The state knows the highest accepted counter, and the ring has the bit of a counter in the
blocks it covers just in case the counter was accepted. -/
structure Exact (s : ReplayState) (accepted : List UInt64) : Prop where
  top : s.counter.toNat = highest accepted
  bits : ∀ c : UInt64, c.toNat / 64 ≤ s.counter.toNat / 64 → s.counter.toNat / 64 < c.toNat / 64 + 128 →
    (test s.backtrack (slot c.toNat) = true ↔ c ∈ accepted)

theorem exact_default : Exact .default [] := by
  refine ⟨rfl, fun c _ _ => ?_⟩
  have hzeros := test_zeros ringBlocks (slot c.toNat)
  simp only [ReplayState.default, List.not_mem_nil, iff_false, Bool.not_eq_true]
  exact hzeros

/-- The bits that survive an advance are those of the blocks the ring still covers. -/
theorem Exact.advance {s : ReplayState} {accepted : List UInt64} (he : Exact s accepted) {c : UInt64}
    (hgt : s.counter.toNat < c.toNat) (x : UInt64) (hle : x.toNat / 64 ≤ c.toNat / 64)
    (hlt : c.toNat / 64 < x.toNat / 64 + 128) :
    test (s.advance c).backtrack (slot x.toNat) = true ↔ x ∈ accepted := by
  have hclear := test_clearBlocks s.size (s.counter.toNat / 64)
    (min (c.toNat / 64 - s.counter.toNat / 64) ringBlocks) (slot x.toNat)
  have hring : ringBlocks = 128 := rfl
  simp only [ReplayState.advance, shiftRight_blockBitLog]
  rw [hclear, slot_div]
  rcases Nat.lt_or_ge (s.counter.toNat / 64) (x.toNat / 64) with hpassed | hkept
  · -- a block passed over: its bits are gone, and no counter of it was accepted
    constructor
    · rintro ⟨-, hall⟩
      exfalso
      rcases Nat.lt_or_ge (c.toNat / 64 - s.counter.toNat / 64) 128 with hnear | hfar
      · exact hall (x.toNat / 64) hpassed (by omega) rfl
      · -- the jump is wider than the ring: some block passed over has every place
        refine hall (s.counter.toNat / 64 + 1 + (x.toNat / 64 - (s.counter.toNat / 64 + 1)) % 128) (by omega) ?_ (by omega)
        have := Nat.mod_lt (x.toNat / 64 - (s.counter.toNat / 64 + 1)) (show 128 > 0 by decide)
        omega
    · intro hmem
      have hhigh := le_highest hmem
      rw [← he.top] at hhigh
      omega
  · -- a block still covered: none of those passed over shares its place
    rw [he.bits x hkept (by omega)]
    refine ⟨fun h => h.1, fun h => ⟨h, fun i hlo hhi => ?_⟩⟩
    omega

/-- Marking a counter the ring covers. -/
theorem mark_exact {s : ReplayState} {accepted : List UInt64} {c : UInt64}
    (hbits : ∀ x : UInt64, x.toNat / 64 ≤ s.counter.toNat / 64 → s.counter.toNat / 64 < x.toNat / 64 + 128 →
      (test s.backtrack (slot x.toNat) = true ↔ x ∈ accepted))
    (hle : c.toNat / 64 ≤ s.counter.toNat / 64) (hlt : s.counter.toNat / 64 < c.toNat / 64 + 128) :
    (c ∈ accepted → s.mark c = (.repeated, s))
      ∧ (c ∉ accepted → (s.mark c).1 = .accept ∧ (s.mark c).2.counter = s.counter
        ∧ ∀ x : UInt64, x.toNat / 64 ≤ s.counter.toNat / 64 → s.counter.toNat / 64 < x.toNat / 64 + 128 →
          (test (s.mark c).2.backtrack (slot x.toNat) = true ↔ x ∈ accepted ++ [c])) := by
  have hc := hbits c hle hlt
  refine ⟨fun hmem => ?_, fun hnot => ?_⟩
  · rw [mark_test, if_pos (hc.mpr hmem)]
  · have hclear : ¬test s.backtrack (slot c.toNat) = true := fun h => hnot (hc.mp h)
    rw [mark_test, if_neg hclear]
    refine ⟨rfl, rfl, fun x hxle hxlt => ?_⟩
    have hword : slot c.toNat / 64 < s.backtrack.length := by
      rw [s.size, slot_div]
      exact Nat.mod_lt _ (by decide)
    -- within the blocks the ring covers a place belongs to one counter
    have hplace : slot x.toNat = slot c.toNat ↔ x = c := by
      constructor
      · intro heq
        have hdiv := congrArg (· / 64) heq
        have hmod := congrArg (· % 64) heq
        simp only [slot_div, slot_mod] at hdiv hmod
        exact UInt64.toNat_inj.mp (by omega)
      · rintro rfl
        rfl
    show test (Bitmap.set s.backtrack (slot c.toNat)) (slot x.toNat) = true ↔ _
    rw [test_set hword, Bool.or_eq_true, decide_eq_true_eq, hplace, hbits x hxle hxlt, List.mem_append,
      List.mem_singleton, or_comm]

/-! ## The decision -/

/-- Fresh, and not too old. -/
def Fresh (accepted : List UInt64) (c : UInt64) : Prop :=
  c ∉ accepted ∧ (highest accepted < c.toNat ∨ highest accepted - c.toNat ≤ replayWindow)

theorem not_mem_of_gt {accepted : List UInt64} {c : UInt64} (hgt : highest accepted < c.toNat) : c ∉ accepted :=
  fun hmem => absurd (le_highest hmem) (not_le.mpr hgt)

theorem Exact.checkAndUpdate {s : ReplayState} {accepted : List UInt64} (he : Exact s accepted) (c : UInt64) :
    (Fresh accepted c → (s.checkAndUpdate c).1 = .accept ∧ Exact (s.checkAndUpdate c).2 (accepted ++ [c]))
      ∧ (¬Fresh accepted c → (s.checkAndUpdate c).1 ≠ .accept ∧ Exact (s.checkAndUpdate c).2 accepted) := by
  have htop := he.top
  have hwindow : replayWindow = 8128 := rfl
  unfold ReplayState.checkAndUpdate
  by_cases hgt : c > s.counter
  · rw [if_pos hgt]
    have hnat : s.counter.toNat < c.toNat := UInt64.lt_iff_toNat_lt.mp hgt
    have hnew : c ∉ accepted := not_mem_of_gt (htop ▸ hnat)
    have hmarked := mark_exact (s := s.advance c) (c := c) (he.advance hnat) (le_refl _) (Nat.lt_add_of_pos_right (by decide))
    obtain ⟨haccept, hcounter, hbits⟩ := hmarked.2 hnew
    have hadvanced : (s.advance c).counter = c := rfl
    refine ⟨fun _ => ⟨haccept, ?_, ?_⟩, fun hstale => absurd ⟨hnew, Or.inl (htop ▸ hnat)⟩ hstale⟩
    · rw [hcounter, hadvanced, highest_append, ← htop]
      exact (max_eq_right (le_of_lt hnat)).symm
    · rw [hcounter]
      exact hbits
  · rw [if_neg hgt]
    have hle : c.toNat ≤ s.counter.toNat := UInt64.le_iff_toNat_le.mp (UInt64.not_lt.mp hgt)
    by_cases hold : s.counter.toNat - c.toNat > replayWindow
    · rw [if_pos hold]
      refine ⟨fun hfresh => ?_, fun _ => ⟨by simp, he⟩⟩
      rcases hfresh.2 with hhigh | hnear <;> omega
    · rw [if_neg hold]
      obtain ⟨hrepeat, hmark⟩ := mark_exact he.bits (c := c) (Nat.div_le_div_right hle) (by omega)
      refine ⟨fun hfresh => ?_, fun hstale => ?_⟩
      · obtain ⟨haccept, hcounter, hbits⟩ := hmark hfresh.1
        refine ⟨haccept, ?_, ?_⟩
        · rw [hcounter, highest_append, ← htop]
          exact (max_eq_left hle).symm
        · rw [hcounter]
          exact hbits
      · have hmem : c ∈ accepted := by
          by_contra hnot
          exact hstale ⟨hnot, Or.inr (by omega)⟩
        rw [hrepeat hmem]
        exact ⟨by simp, he⟩

/-! ## Every sequence of counters -/

/-- A counter is presented; the accepted ones are kept on a list beside the state. -/
def present (w : ReplayState × List UInt64) (c : UInt64) : ReplayState × List UInt64 :=
  match w.1.checkAndUpdate c with
  | (.accept, s) => (s, w.2 ++ [c])
  | (_, s) => (s, w.2)

/-- The state and the accepted counters after a sequence. -/
def after (counters : List UInt64) : ReplayState × List UInt64 := Runs.run present (.default, []) counters

theorem present_accept {w : ReplayState × List UInt64} {c : UInt64} (h : (w.1.checkAndUpdate c).1 = .accept) :
    present w c = ((w.1.checkAndUpdate c).2, w.2 ++ [c]) := by
  unfold present
  generalize w.1.checkAndUpdate c = d at h ⊢
  obtain ⟨d, s⟩ := d
  obtain rfl : d = .accept := h
  rfl

theorem present_reject {w : ReplayState × List UInt64} {c : UInt64} (h : (w.1.checkAndUpdate c).1 ≠ .accept) :
    present w c = ((w.1.checkAndUpdate c).2, w.2) := by
  unfold present
  generalize w.1.checkAndUpdate c = d at h ⊢
  obtain ⟨d, s⟩ := d
  cases d with
  | accept => exact absurd rfl h
  | repeated => rfl
  | outOfWindow => rfl

/-- The window is exact and has accepted no counter twice. -/
structure Sound (w : ReplayState × List UInt64) : Prop where
  exact_ : Exact w.1 w.2
  once : w.2.Nodup

theorem Sound.present {w : ReplayState × List UInt64} (hs : Sound w) (c : UInt64) : Sound (present w c) := by
  obtain ⟨hfresh, hstale⟩ := hs.exact_.checkAndUpdate c
  by_cases h : Fresh w.2 c
  · obtain ⟨haccept, hexact⟩ := hfresh h
    rw [present_accept haccept]
    refine ⟨hexact, List.nodup_append.mpr ⟨hs.once, List.nodup_singleton c, ?_⟩⟩
    rintro a ha b hb rfl
    rw [List.mem_singleton] at hb
    exact h.1 (hb ▸ ha)
  · obtain ⟨hreject, hexact⟩ := hstale h
    rw [present_reject hreject]
    exact ⟨hexact, hs.once⟩

theorem sound_after (counters : List UInt64) : Sound (after counters) :=
  Runs.run_invariant ⟨exact_default, List.nodup_nil⟩ (fun _ c hs => hs.present c) counters

theorem highest_present (w : ReplayState × List UInt64) (c : UInt64) : highest w.2 ≤ highest (present w c).2 := by
  unfold present
  split
  · rw [highest_append]
    exact le_max_left _ _
  · exact le_refl _

/-- **The replay window is exact.** After any sequence of counters, `c` is accepted just in case it
was not accepted before and is above the highest accepted counter or at most 8128 below it; no
counter is accepted twice; and a counter that the check without the lock turns away in some state
is accepted in none that comes after. -/
theorem replayWindow_exact (counters : List UInt64) :
    (∀ c, ((after counters).1.checkAndUpdate c).1 = .accept ↔
        c ∉ (after counters).2
          ∧ (highest (after counters).2 < c.toNat ∨ highest (after counters).2 - c.toNat ≤ 8128))
      ∧ (after counters).2.Nodup
      ∧ ∀ c more, (after counters).1.definitelyOutOfWindow c = true →
        ((after (counters ++ more)).1.checkAndUpdate c).1 ≠ .accept := by
  have hs := sound_after counters
  refine ⟨fun c => ?_, hs.once, fun c more hout => ?_⟩
  · obtain ⟨hfresh, hstale⟩ := hs.exact_.checkAndUpdate c
    refine ⟨fun haccept => ?_, fun h => (hfresh h).1⟩
    by_contra hnot
    exact (hstale hnot).1 haccept
  · -- the highest counter only rises, so what is out of the window stays out
    have hlater := sound_after (counters ++ more)
    refine ((hlater.exact_.checkAndUpdate c).2 fun hfresh => ?_).1
    have hmono : highest (after counters).2 ≤ highest (after (counters ++ more)).2 := by
      rw [after, after, Runs.run_append]
      exact Runs.run_mono (q := fun w : ReplayState × List UInt64 => highest w.2) highest_present more
    have hfar : highest (after counters).2 - c.toNat > 8128 := by
      rw [← hs.exact_.top]
      exact of_decide_eq_true hout
    have hwindow : replayWindow = 8128 := rfl
    rcases hfresh.2 with hhigh | hnear <;> omega

end Xpf.WgReplay
