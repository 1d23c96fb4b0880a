/-
Credit that accrues with time and is granted in whole units.

A clock marks the time up to which credit has been granted. A settlement at a later time
grants the whole units earned since and moves the clock on, but short of the present by the
time that the ungranted rest is worth. That time is a quotient too: it carries the rest over
exactly when the rate divides it. The file has both sides. A settlement never grants more
than the clock's advance is worth, whatever the rate; and over a sequence of settlements
nothing is lost exactly when the rate divides the unit or is a multiple of it.
-/
import Mathlib.Data.Nat.Notation
import Mathlib.Data.List.Chain
import Mathlib.Tactic.Common

set_option autoImplicit false

namespace Xpf.Accrual

/-- The units granted at `now` by a clock at `last`, and the clock after it. -/
def settle (rate unit last now : ℕ) : ℕ × ℕ :=
  let scaled := (now - last) * rate
  if scaled / unit = 0 then (0, last)
  else (scaled / unit, now - scaled % unit / rate)

/-- The units granted by settlements at the given times, and the clock after them. -/
def settleAll (rate unit : ℕ) : ℕ → List ℕ → ℕ × ℕ
  | last, [] => (0, last)
  | last, now :: times =>
    let (granted, last) := settle rate unit last now
    let (rest, last) := settleAll rate unit last times
    (granted + rest, last)

section

variable {rate unit last now : ℕ}

theorem settleAll_cons (times : List ℕ) :
    settleAll rate unit last (now :: times)
      = ((settle rate unit last now).1 + (settleAll rate unit (settle rate unit last now).2 times).1,
          (settleAll rate unit (settle rate unit last now).2 times).2) := rfl

/-! ## One settlement -/

/-- The time carried over is part of the time that has passed. -/
theorem carried_le (rate unit elapsed : ℕ) : elapsed * rate % unit / rate ≤ elapsed := by
  rcases Nat.eq_zero_or_pos rate with hzero | hpos
  · rw [hzero, Nat.div_zero]
    exact Nat.zero_le _
  · calc elapsed * rate % unit / rate ≤ elapsed * rate / rate :=
          Nat.div_le_div_right (Nat.mod_le _ _)
      _ = elapsed := Nat.mul_div_cancel _ hpos

/-- Either less than a unit is due and nothing happens, or all whole units are granted. -/
theorem settle_cases (rate unit last now : ℕ) :
    ((now - last) * rate / unit = 0 ∧ settle rate unit last now = (0, last))
      ∨ (0 < (now - last) * rate / unit
        ∧ settle rate unit last now
          = ((now - last) * rate / unit, now - (now - last) * rate % unit / rate)) := by
  by_cases h : (now - last) * rate / unit = 0
  · exact .inl ⟨h, if_pos h⟩
  · exact .inr ⟨Nat.pos_of_ne_zero h, if_neg h⟩

/-- The units granted are those due. -/
theorem settle_granted : (settle rate unit last now).1 = (now - last) * rate / unit := by
  rcases settle_cases rate unit last now with ⟨hnone, h⟩ | ⟨-, h⟩
  · rw [h, hnone]
  · rw [h]

/-- The clock never moves back. -/
theorem le_settle : last ≤ (settle rate unit last now).2 := by
  rcases settle_cases rate unit last now with ⟨-, h⟩ | ⟨hdue, h⟩
  · rw [h]
  · rw [h]
    dsimp only
    have hcarried := carried_le rate unit (now - last)
    have hlt : last < now := by
      by_contra hge
      rw [Nat.sub_eq_zero_of_le (Nat.le_of_not_lt hge), Nat.zero_mul, Nat.zero_div] at hdue
      exact Nat.lt_irrefl _ hdue
    omega

/-- The clock never passes the present. -/
theorem settle_le : (settle rate unit last now).2 ≤ max last now := by
  rcases settle_cases rate unit last now with ⟨-, h⟩ | ⟨-, h⟩
  · rw [h]
    exact Nat.le_max_left _ _
  · rw [h]
    exact (Nat.sub_le _ _).trans (Nat.le_max_right _ _)

/-- What is granted is at most what the clock's advance is worth. -/
theorem settle_earned :
    (settle rate unit last now).1 * unit + last * rate ≤ (settle rate unit last now).2 * rate := by
  rcases settle_cases rate unit last now with ⟨-, h⟩ | ⟨hdue, h⟩
  · rw [h, Nat.zero_mul, Nat.zero_add]
  · have hcarried := carried_le rate unit (now - last)
    have hlt : last ≤ now := by
      by_contra hge
      rw [Nat.sub_eq_zero_of_le (by omega), Nat.zero_mul, Nat.zero_div] at hdue
      exact Nat.lt_irrefl _ hdue
    have hrest := Nat.div_mul_le_self ((now - last) * rate % unit) rate
    have hdiv := Nat.div_add_mod' ((now - last) * rate) unit
    have hsplit : (now - last) * rate + last * rate = now * rate := by
      rw [← Nat.add_mul, Nat.sub_add_cancel hlt]
    rw [h]
    dsimp only
    rw [Nat.sub_mul now ((now - last) * rate % unit / rate) rate]
    generalize (now - last) * rate / unit * unit = granted at hdiv ⊢
    generalize (now - last) * rate % unit / rate * rate = carried at hrest ⊢
    omega

/-- What is left on the clock is less than a unit. -/
theorem settle_pending (hunit : 0 < unit) :
    (now - (settle rate unit last now).2) * rate < unit := by
  rcases settle_cases rate unit last now with ⟨hnone, h⟩ | ⟨-, h⟩
  · rw [h]
    exact (Nat.div_eq_zero_iff_lt hunit).mp hnone
  · rw [h]
    dsimp only
    calc (now - (now - (now - last) * rate % unit / rate)) * rate
        ≤ (now - last) * rate % unit / rate * rate :=
          Nat.mul_le_mul_right _ (Nat.sub_le_of_le_add (Nat.sub_le_iff_le_add'.mp (Nat.le_refl _)))
      _ ≤ (now - last) * rate % unit := Nat.div_mul_le_self _ _
      _ < unit := Nat.mod_lt _ hunit

/-- A rate that divides the unit, or is a multiple of it, leaves a rest that is a whole number
of time steps. -/
theorem rate_dvd_rest (h : rate ∣ unit ∨ unit ∣ rate) (elapsed : ℕ) :
    rate ∣ elapsed * rate % unit := by
  rcases h with hrate | hunit
  · exact (Nat.dvd_mod_iff hrate).mpr (Nat.dvd_mul_left _ _)
  · rw [Nat.mod_eq_zero_of_dvd (Nat.dvd_mul_left_of_dvd hunit _)]
    exact Nat.dvd_zero _

/-- With such a rate a settlement only moves credit from the clock to the units granted. -/
theorem settle_exact (h : rate ∣ unit ∨ unit ∣ rate) (hle : last ≤ now) :
    (settle rate unit last now).1 * unit + (now - (settle rate unit last now).2) * rate
      = (now - last) * rate := by
  rcases settle_cases rate unit last now with ⟨-, hs⟩ | ⟨-, hs⟩
  · rw [hs, Nat.zero_mul, Nat.zero_add]
  · have hcarried := carried_le rate unit (now - last)
    have hrest := Nat.div_mul_cancel (rate_dvd_rest h (now - last))
    have hdiv := Nat.div_add_mod' ((now - last) * rate) unit
    rw [hs]
    dsimp only
    generalize (now - last) * rate % unit / rate = carried at hcarried hrest ⊢
    rw [show now - (now - carried) = carried by omega]
    omega

/-! ## A sequence of settlements -/

/-- The time of the last settlement. -/
def lastTime (start : ℕ) (times : List ℕ) : ℕ := times.getLastD start

theorem lastTime_cons (start now : ℕ) (times : List ℕ) :
    lastTime start (now :: times) = lastTime now times := by
  rw [lastTime, List.getLastD_cons, lastTime]

/-- In increasing times the last one is the greatest. -/
theorem le_lastTime {start : ℕ} {times : List ℕ} (hchain : (start :: times).IsChain (· < ·)) :
    start ≤ lastTime start times := by
  induction times generalizing start with
  | nil => exact Nat.le_refl _
  | cons now times ih =>
    rw [List.isChain_cons_cons] at hchain
    rw [lastTime_cons]
    exact hchain.1.le.trans (ih hchain.2)

/-- Settlements at increasing times, with a rate that carries over exactly: the credit of the
whole span is granted or still on the clock, and there is less than a unit on the clock. -/
theorem settleAll_exact (hunit : 0 < unit) (h : rate ∣ unit ∨ unit ∣ rate) {start : ℕ} {times : List ℕ}
    (hchain : (start :: times).IsChain (· < ·)) (hlast : last ≤ start)
    (hpending : (start - last) * rate < unit) :
    (settleAll rate unit last times).1 * unit
        + (lastTime start times - (settleAll rate unit last times).2) * rate
          = (lastTime start times - last) * rate
      ∧ (lastTime start times - (settleAll rate unit last times).2) * rate < unit := by
  induction times generalizing start last with
  | nil =>
    simp only [settleAll, lastTime, List.getLastD_nil, Nat.zero_mul, Nat.zero_add, true_and]
    exact hpending
  | cons now times ih =>
    rw [List.isChain_cons_cons] at hchain
    obtain ⟨hnow, hchain⟩ := hchain
    have hclock : (settle rate unit last now).2 ≤ now :=
      settle_le.trans (Nat.max_le.mpr ⟨by omega, Nat.le_refl _⟩)
    have hstep := settle_exact h (show last ≤ now by omega)
    obtain ⟨hsum, hrest⟩ := ih hchain hclock (settle_pending hunit)
    have hend := le_lastTime hchain
    rw [settleAll_cons, lastTime_cons]
    refine ⟨?_, hrest⟩
    -- both spans end at the last settlement: compare them from there
    have hwhole : (lastTime now times - last) * rate
        = (lastTime now times - (settle rate unit last now).2) * rate
          + ((settle rate unit last now).2 - last) * rate := by
      have hle : last ≤ (settle rate unit last now).2 := le_settle
      rw [← Nat.add_mul]
      congr 1
      omega
    have hpart : (now - last) * rate
        = (now - (settle rate unit last now).2) * rate + ((settle rate unit last now).2 - last) * rate := by
      have hle : last ≤ (settle rate unit last now).2 := le_settle
      rw [← Nat.add_mul]
      congr 1
      omega
    dsimp only
    rw [Nat.add_mul]
    omega

/-- So the units granted are those that the whole span is worth. -/
theorem settleAll_granted (hunit : 0 < unit) (h : rate ∣ unit ∨ unit ∣ rate) {start : ℕ}
    {times : List ℕ} (hchain : (start :: times).IsChain (· < ·)) :
    (settleAll rate unit start times).1 = (lastTime start times - start) * rate / unit := by
  obtain ⟨hsum, hrest⟩ := settleAll_exact hunit h hchain (Nat.le_refl start) (by simpa using hunit)
  rw [← hsum, Nat.add_comm, Nat.add_mul_div_right _ _ hunit, Nat.div_eq_of_lt hrest, Nat.zero_add]

/-! ## A rate that does not carry over -/

/-- A step of time after which a settlement loses its rest. -/
def lossyStep (rate unit : ℕ) : ℕ := unit / rate + 1

/-- The units granted after such a step. -/
def lossyGrant (rate unit : ℕ) : ℕ := lossyStep rate unit * rate / unit

/-- Other rates lose the rest of a settlement after a lossy step. -/
theorem lossyStep_rest (hunit : 0 < unit) (h : ¬(rate ∣ unit ∨ unit ∣ rate)) :
    0 < lossyGrant rate unit
      ∧ lossyStep rate unit * rate % unit / rate = 0
      ∧ lossyGrant rate unit * unit < lossyStep rate unit * rate := by
  rw [not_or] at h
  obtain ⟨hrate, hmultiple⟩ := h
  have hpos : 0 < rate := by
    apply Nat.pos_of_ne_zero
    intro hzero
    rw [hzero] at hmultiple
    exact hmultiple (Nat.dvd_zero unit)
  have hmod : 0 < unit % rate := Nat.pos_of_ne_zero fun hzero => hrate (Nat.dvd_of_mod_eq_zero hzero)
  have hlt : unit % rate < rate := Nat.mod_lt _ hpos
  have hdiv := Nat.div_add_mod' unit rate
  have hstep : lossyStep rate unit * rate = unit / rate * rate + rate := by
    rw [lossyStep, Nat.add_mul, Nat.one_mul]
  rcases Nat.lt_or_ge rate unit with hsmall | hlarge
  · -- less than a unit a step: one unit is granted, and less than a step's worth is left
    have hquot : lossyStep rate unit * rate / unit = 1 := by
      rw [Nat.div_eq_iff hunit]
      omega
    have hrem : lossyStep rate unit * rate % unit < rate := by
      have hdm := Nat.div_add_mod' (lossyStep rate unit * rate) unit
      rw [hquot] at hdm
      omega
    refine ⟨by rw [lossyGrant, hquot]; exact Nat.one_pos, Nat.div_eq_of_lt hrem, ?_⟩
    rw [lossyGrant, hquot]
    omega
  · -- more than a unit a step: the rest is below the unit, so below the rate
    have hzero : unit / rate = 0 := by
      apply Nat.div_eq_of_lt
      have hne : rate ≠ unit := fun heq => hrate (heq ▸ Nat.dvd_refl _)
      omega
    have hone : lossyStep rate unit * rate = rate := by rw [hstep, hzero, Nat.zero_mul, Nat.zero_add]
    have hrest : 0 < rate % unit :=
      Nat.pos_of_ne_zero fun hzero => hmultiple (Nat.dvd_of_mod_eq_zero hzero)
    have hdm := Nat.div_add_mod' rate unit
    have hbelow : rate % unit < unit := Nat.mod_lt _ hunit
    rw [lossyGrant, hone]
    refine ⟨Nat.div_pos hlarge hunit, Nat.div_eq_of_lt (by omega), by omega⟩

theorem lossyStep_pos (rate unit : ℕ) : 0 < lossyStep rate unit := Nat.succ_pos _

theorem lossyStep_le (rate unit : ℕ) : lossyStep rate unit ≤ unit + 1 :=
  Nat.succ_le_succ (Nat.div_le_self unit rate)

/-- A lossy step is worth less than two units or less than the rate. -/
theorem lossyStep_worth (h : ¬(rate ∣ unit ∨ unit ∣ rate)) :
    lossyStep rate unit * rate < 2 * unit ∨ lossyStep rate unit * rate = rate := by
  rw [lossyStep, Nat.add_mul, Nat.one_mul]
  rcases Nat.lt_or_ge rate unit with hsmall | hlarge
  · have hle := Nat.div_mul_le_self unit rate
    exact .inl (by omega)
  · have hne : unit ≠ rate := fun heq => h (.inl (heq ▸ Nat.dvd_refl _))
    rw [Nat.div_eq_of_lt (show unit < rate by omega), Nat.zero_mul, Nat.zero_add]
    exact .inr rfl

theorem lossyGrant_lt (hunit : 0 < unit) (h : ¬(rate ∣ unit ∨ unit ∣ rate)) {bound : ℕ} (hone : 1 < bound)
    (hrate : rate < bound * unit) : lossyGrant rate unit < bound := by
  rw [lossyGrant, Nat.div_lt_iff_lt_mul hunit]
  rcases lossyStep_worth h with hworth | hworth
  · exact hworth.trans_le (Nat.mul_le_mul_right _ hone)
  · rwa [hworth]

/-- Settlement after a lossy step: the clock comes to the present and the rest is gone. -/
theorem settle_lossy (hunit : 0 < unit) (h : ¬(rate ∣ unit ∨ unit ∣ rate)) :
    settle rate unit last (last + lossyStep rate unit)
      = (lossyGrant rate unit, last + lossyStep rate unit) := by
  obtain ⟨hgrant, hcarried, -⟩ := lossyStep_rest hunit h
  rw [lossyGrant] at hgrant ⊢
  rw [settle, Nat.add_sub_cancel_left, if_neg (Nat.ne_of_gt hgrant), hcarried, Nat.sub_zero]

/-- `count` times one step apart. -/
def paced (step : ℕ) : ℕ → ℕ → List ℕ
  | _, 0 => []
  | start, count + 1 => (start + step) :: paced step (start + step) count

theorem lastTime_paced (step start count : ℕ) :
    lastTime start (paced step start count) = start + count * step := by
  induction count generalizing start with
  | zero => simp only [paced, lastTime, List.getLastD_nil, Nat.zero_mul, Nat.add_zero]
  | succ count ih =>
    rw [paced, lastTime_cons, ih, Nat.succ_mul]
    omega

theorem isChain_paced {step : ℕ} (hstep : 0 < step) (start count : ℕ) :
    (start :: paced step start count).IsChain (· < ·) := by
  induction count generalizing start with
  | zero => exact List.isChain_singleton _
  | succ count ih =>
    rw [paced, List.isChain_cons_cons]
    exact ⟨Nat.lt_add_of_pos_right hstep, ih _⟩

theorem mem_paced_le {step start count t : ℕ} (h : t ∈ paced step start count) :
    t ≤ start + count * step := by
  induction count generalizing start with
  | zero => exact absurd h List.not_mem_nil
  | succ count ih =>
    rw [paced, List.mem_cons] at h
    rw [Nat.succ_mul]
    rcases h with rfl | h
    · omega
    · have hle := ih h
      omega

/-- After a unit's number of lossy steps the rests lost add up to whole units. -/
theorem lossy_short (hunit : 0 < unit) (h : ¬(rate ∣ unit ∨ unit ∣ rate)) :
    unit * lossyGrant rate unit < unit * lossyStep rate unit * rate / unit := by
  obtain ⟨-, -, hloss⟩ := lossyStep_rest hunit h
  rw [Nat.mul_assoc, Nat.mul_div_cancel_left _ hunit, Nat.mul_comm]
  exact hloss

end

end Xpf.Accrual
