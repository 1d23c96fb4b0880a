/-
Policy schedulers: `isWithinWindow` of `pkg/scheduler/scheduler.go` and the parsers of
`pkg/config/schema_validators_scheduler.go`.

A scheduler has a window for each day, its own or the daily one, inside an optional range of
dates. A window whose stop is before its start runs past midnight. Its evening is decided on
its own day, and its tail on the next day by `overnightTailActive`, which asks in addition that
the window opened inside the range of dates.

An instant is a reading of the local clock: in a zone of fixed offset two instants compare as
their readings do, and a day later is the next date. A time layout is parsed as `time.Parse`
does it, an hour with one digit and a fraction behind the seconds included.
-/
import Mathlib.Tactic.Common
import Xpf.GoStrings
import Xpf.Tables

set_option autoImplicit false

namespace Xpf.Scheduler

open Xpf.GoStrings (Bytes bytes)
open Xpf.Tables (Table)

/-! ## Clock and calendar -/

/-- `tod`: hours, minutes and seconds of a clock. -/
structure Tod where
  h : ℕ
  m : ℕ
  s : ℕ
  valid : h < 24 ∧ m < 60 ∧ s < 60
  deriving DecidableEq

namespace Tod

def before (t other : Tod) : Bool :=
  if t.h ≠ other.h then t.h < other.h
  else if t.m ≠ other.m then t.m < other.m
  else t.s < other.s

def midnight : Tod := ⟨0, 0, 0, by decide⟩

def of? (h m s : ℕ) : Option Tod := if valid : h < 24 ∧ m < 60 ∧ s < 60 then some ⟨h, m, s, valid⟩ else none

end Tod

/-- `time.Time`: the local date, counted in days from 1970-01-01, and the local time. -/
structure Time where
  day : ℤ
  tod : Tod
  nsec : ℕ
  valid : nsec < 1000000000
  deriving DecidableEq

namespace Time

/-- `time.Date`. -/
def date (day : ℤ) (tod : Tod) : Time := ⟨day, tod, 0, by decide⟩

def before (t other : Time) : Bool :=
  if t.day ≠ other.day then t.day < other.day
  else if t.tod ≠ other.tod then t.tod.before other.tod
  else t.nsec < other.nsec

/-- `AddDate` of days. -/
def addDays (t : Time) (days : ℤ) : Time := { t with day := t.day + days }

end Time

/-- `time.Weekday` of a date, Sunday being 0: day zero was a Thursday. -/
def weekday (day : ℤ) : Fin 7 := ⟨((day + 4) % 7).toNat, by omega⟩

/-- `strings.ToLower(wd.String())`. -/
def weekdayName : Fin 7 → Bytes
  | 0 => bytes "sunday"
  | 1 => bytes "monday"
  | 2 => bytes "tuesday"
  | 3 => bytes "wednesday"
  | 4 => bytes "thursday"
  | 5 => bytes "friday"
  | 6 => bytes "saturday"

def isLeap (year : ℕ) : Bool := year % 4 = 0 && (year % 100 ≠ 0 || year % 400 = 0)

/-- The days of a year before the month, in a year that is not a leap year. -/
def daysBefore : List ℕ := [0, 31, 59, 90, 120, 151, 181, 212, 243, 273, 304, 334, 365]

def daysIn (month year : ℕ) : ℕ :=
  if month = 2 && isLeap year then 29 else daysBefore.getD month 0 - daysBefore.getD (month - 1) 0

/-- The number of the day of a date, from 1970-01-01. -/
def dayNumber (year month day : ℕ) : ℤ :=
  let years := year * 365 + (year + 3) / 4 - (year + 99) / 100 + (year + 399) / 400
  let leap := if 2 < month && isLeap year then 1 else 0
  ((years + daysBefore.getD (month - 1) 0 + leap + (day - 1) : ℕ) : ℤ) - 719528

/-! ## Parsers -/

def isDigit (c : UInt8) : Bool := 48 ≤ c && c ≤ 57

/-- `getnum`: a number of two digits, or of one where the layout allows it. -/
def getnum (fixed : Bool) : Bytes → Option (ℕ × Bytes)
  | [] => none
  | c :: s =>
    if !isDigit c then none
    else
      match s with
      | c' :: s' =>
        if isDigit c' then some ((c.toNat - 48) * 10 + (c'.toNat - 48), s')
        else if fixed then none
        else some (c.toNat - 48, c' :: s')
      | [] => if fixed then none else some (c.toNat - 48, [])

/-- A year of four digits. -/
def getYear : Bytes → Option (ℕ × Bytes)
  | a :: b :: c :: d :: s =>
    if isDigit a && isDigit b && isDigit c && isDigit d then
      some ((a.toNat - 48) * 1000 + (b.toNat - 48) * 100 + (c.toNat - 48) * 10 + (d.toNat - 48), s)
    else none
  | _ => none

/-- A character of the layout that stands for itself. -/
def skip (c : UInt8) : Bytes → Option Bytes
  | c' :: s => if c' = c then some s else none
  | [] => none

/-- A fraction of a second that the layout does not ask for. -/
def skipFraction : Bytes → Bytes
  | c :: c' :: s => if (c = 46 || c = 44) && isDigit c' then s.dropWhile isDigit else c :: c' :: s
  | s => s

/-- The layout 15:04. -/
def parseHourMinute (raw : Bytes) : Option Tod := do
  let (h, s) ← getnum false raw
  let s ← skip 58 s
  let (m, s) ← getnum true s
  if s = [] then Tod.of? h m 0 else none

/-- The layout 15:04:05. -/
def parseHourMinuteSecond (raw : Bytes) : Option Tod := do
  let (h, s) ← getnum false raw
  let s ← skip 58 s
  let (m, s) ← getnum true s
  let s ← skip 58 s
  let (sec, s) ← getnum true s
  if skipFraction s = [] then Tod.of? h m sec else none

/-- `ParseSchedulerTimeOfDay`. -/
def parseTimeOfDay (raw : Bytes) : Option Tod :=
  match raw.count 58 with
  | 1 => if raw.length ≠ 5 then none else parseHourMinute raw
  | 2 => parseHourMinuteSecond raw
  | _ => none

/-- The layout 2006-01-02. -/
def parseDate (raw : Bytes) : Option (ℤ × Bytes) := do
  let (year, s) ← getYear raw
  let s ← skip 45 s
  let (month, s) ← getnum true s
  let s ← skip 45 s
  let (day, s) ← getnum true s
  if 1 ≤ month && month ≤ 12 && 1 ≤ day && day ≤ daysIn month year then some (dayNumber year month day, s) else none

/-- `ParseSchedulerDateBound`: the bound and whether it has a time. -/
def parseSchedulerDateBound (raw : Bytes) : Option (Time × Bool) :=
  if raw.contains 46 then do
    if raw.length ≠ 16 then none
    else
      let (day, s) ← parseDate raw
      let s ← skip 46 s
      let tod ← parseHourMinute s
      return (Time.date day tod, true)
  else do
    let (day, s) ← parseDate raw
    if s = [] then some (Time.date day .midnight, false) else none

/-! ## Schedulers -/

structure SchedulerDayWindow where
  startTime : Bytes
  stopTime : Bytes
  allDay : Bool
  exclude : Bool
  deriving DecidableEq

/-- `SchedulerConfig`: what an evaluation reads of it. -/
structure SchedulerConfig where
  startTime : Bytes
  stopTime : Bytes
  startDate : Bytes
  stopDate : Bytes
  allDay : Bool
  dailyExclude : Bool
  unresolvable : Bool
  days : Table Bytes (Option SchedulerDayWindow)

/-- Inside the range of dates, or none where a bound does not parse. -/
def withinDateRange (now : Time) (sched : SchedulerConfig) : Option Bool := do
  let started ←
    if sched.startDate ≠ [] then do
      let (start, _) ← parseSchedulerDateBound sched.startDate
      pure (!now.before start)
    else pure true
  if !started then return false
  if sched.stopDate ≠ [] then do
    let (stop, hasTime) ← parseSchedulerDateBound sched.stopDate
    -- a date alone is inclusive
    return now.before (if hasTime then stop else stop.addDays 1)
  else return true

def dailyWindow? (sched : SchedulerConfig) : Bool :=
  sched.dailyExclude || sched.allDay || sched.startTime ≠ [] || sched.stopTime ≠ []

/-- The window of a weekday: its own, or the daily one. -/
def effectiveDayWindow (sched : SchedulerConfig) (wd : Fin 7) : Option SchedulerDayWindow :=
  match (sched.days.lookup (weekdayName wd)).join with
  | some win => some win
  | none =>
    if dailyWindow? sched then some ⟨sched.startTime, sched.stopTime, sched.allDay, sched.dailyExclude⟩ else none

def schedulerHasTimeWindow (sched : SchedulerConfig) : Bool := dailyWindow? sched || !Tables.isEmpty sched.days

def schedulerHasDateRange (sched : SchedulerConfig) : Bool := sched.startDate ≠ [] || sched.stopDate ≠ []

def withinTimeOfDay (now : Time) (start stop : Bytes) : Bool :=
  match parseTimeOfDay start, parseTimeOfDay stop with
  | some start, some stop =>
    if start = stop then false
    else if stop.before start then !now.tod.before start || now.tod.before stop
    else !now.tod.before start && now.tod.before stop
  | _, _ => false

/-- The tail of yesterday's window, if that opened inside the range of dates. -/
def overnightTailActive (now : Time) (sched : SchedulerConfig) : Bool :=
  match effectiveDayWindow sched (weekday now.day + 6) with
  | none => false
  | some win =>
    if win.exclude || win.allDay then false
    else if win.startTime = [] || win.stopTime = [] then false
    else
      match parseTimeOfDay win.startTime, parseTimeOfDay win.stopTime with
      | some start, some stop =>
        if start = stop || !stop.before start then false
        else if !now.tod.before stop then false
        else withinDateRange (Time.date (now.day - 1) start) sched = some true
      | _, _ => false

def isWithinWindow (now : Time) (sched : Option SchedulerConfig) : Bool :=
  match sched with
  | none => false
  | some sched =>
    if sched.unresolvable then false
    else if withinDateRange now sched ≠ some true then false
    else
      match effectiveDayWindow sched (weekday now.day) with
      | none => overnightTailActive now sched || (schedulerHasDateRange sched && !schedulerHasTimeWindow sched)
      | some win =>
        if win.exclude then false
        else if win.allDay then true
        else if win.startTime = [] || win.stopTime = [] then false
        else
          match parseTimeOfDay win.startTime, parseTimeOfDay win.stopTime with
          | some start, some stop =>
            if stop.before start then !now.tod.before start || overnightTailActive now sched
            else withinTimeOfDay now win.startTime win.stopTime || overnightTailActive now sched
          | _, _ => withinTimeOfDay now win.startTime win.stopTime || overnightTailActive now sched

/-! ## Order -/

/-- The seconds of the day. -/
def Tod.seconds (t : Tod) : ℕ := (t.h * 60 + t.m) * 60 + t.s

theorem Tod.before_iff {t other : Tod} : t.before other = true ↔ t.seconds < other.seconds := by
  have ht := t.valid
  have hother := other.valid
  rw [before, seconds, seconds]
  split_ifs with hh hm
  · rw [decide_eq_true_eq]
    omega
  · rw [decide_eq_true_eq]
    omega
  · rw [decide_eq_true_eq]
    omega

theorem Tod.seconds_inj {t other : Tod} : t.seconds = other.seconds ↔ t = other := by
  refine ⟨fun h => ?_, fun h => h ▸ rfl⟩
  obtain ⟨h₁, m₁, s₁, valid₁⟩ := t
  obtain ⟨h₂, m₂, s₂, valid₂⟩ := other
  dsimp only [seconds] at h
  rw [Tod.mk.injEq]
  omega

theorem Tod.not_before_iff {t other : Tod} : t.before other = false ↔ other.seconds ≤ t.seconds := by
  rw [← Bool.not_eq_true, before_iff, not_lt]

/-- An instant before the start of a second of a day. -/
theorem Time.before_date_iff {t : Time} {day : ℤ} {tod : Tod} :
    t.before (date day tod) = true ↔ t.day < day ∨ t.day = day ∧ t.tod.seconds < tod.seconds := by
  rw [before, date]
  dsimp only
  split_ifs with hday htod
  · rw [decide_eq_true_eq]
    omega
  · rw [Tod.before_iff]
    omega
  · have hsame := Tod.seconds_inj.mpr (not_not.mp htod)
    rw [decide_eq_true_eq]
    omega

theorem weekday_next (day : ℤ) : weekday (day + 1) + 6 = weekday day := by
  apply Fin.ext
  rw [Fin.val_add]
  simp only [weekday]
  omega

/-! ## One window -/

/-- Every window that is neither excluded nor all-day has a start and a stop that parse. -/
def Complete (sched : SchedulerConfig) : Prop :=
  ∀ wd win, effectiveDayWindow sched wd = some win → win.exclude = false → win.allDay = false →
    ∃ start stop, parseTimeOfDay win.startTime = some start ∧ parseTimeOfDay win.stopTime = some stop

/-- The window of a day: neither excluded nor all-day, with different bounds, and with a next day
that is not excluded if it runs past midnight. -/
structure Occurrence (sched : SchedulerConfig) (day : ℤ) (start stop : Tod) : Prop where
  window : ∃ win, effectiveDayWindow sched (weekday day) = some win ∧ win.exclude = false ∧ win.allDay = false
    ∧ parseTimeOfDay win.startTime = some start ∧ parseTimeOfDay win.stopTime = some stop
  proper : start ≠ stop
  nextDay : stop.before start = true → ∀ win, effectiveDayWindow sched (weekday (day + 1)) = some win →
    win.exclude = false

/-- The instant inside the window, from its start on the day to its stop, that day or the next. -/
def Inside (day : ℤ) (start stop : Tod) (t : Time) : Prop :=
  t.before (.date day start) = false ∧ t.before (.date (if stop.before start then day + 1 else day) stop) = true

def InRange (sched : SchedulerConfig) (t : Time) : Prop := withinDateRange t sched = some true

instance (sched : SchedulerConfig) (t : Time) : Decidable (InRange sched t) :=
  inferInstanceAs (Decidable (withinDateRange t sched = some true))

instance (day : ℤ) (start stop : Tod) (t : Time) : Decidable (Inside day start stop t) :=
  inferInstanceAs (Decidable (_ ∧ _))

/-- What the window of the instant's own day says, without the tail of the day before. -/
def ownWindowActive (sched : SchedulerConfig) (now : Time) : Bool :=
  match effectiveDayWindow sched (weekday now.day) with
  | none => false
  | some win =>
    win.allDay
      || match parseTimeOfDay win.startTime, parseTimeOfDay win.stopTime with
        | some start, some stop =>
          if stop.before start then !now.tod.before start
          else !now.tod.before start && now.tod.before stop
        | _, _ => false

theorem parseTimeOfDay_nonempty {raw : Bytes} {tod : Tod} (h : parseTimeOfDay raw = some tod) : raw ≠ [] := by
  rintro rfl
  cases h

section

variable {sched : SchedulerConfig} {day : ℤ} {start stop : Tod} {t : Time}

/-- Where an instant of a window lies: on its day, or in the tail on the next. -/
theorem Inside.cases (h : Inside day start stop t) :
    (t.day = day ∧ t.tod.before start = false ∧ (stop.before start = false → t.tod.before stop = true))
      ∨ (stop.before start = true ∧ t.day = day + 1 ∧ t.tod.before stop = true) := by
  obtain ⟨hopen, hclose⟩ := h
  rw [← Bool.not_eq_true, Time.before_date_iff] at hopen
  rw [Time.before_date_iff] at hclose
  cases hwraps : stop.before start with
  | true =>
    rw [hwraps, if_pos rfl] at hclose
    rw [Tod.before_iff] at hwraps
    by_cases hday : t.day = day
    · refine .inl ⟨hday, Tod.not_before_iff.mpr ?_, fun h => (Bool.false_ne_true h.symm).elim⟩
      omega
    · refine .inr ⟨rfl, ?_, Tod.before_iff.mpr ?_⟩
      · omega
      · omega
  | false =>
    rw [hwraps, if_neg Bool.false_ne_true] at hclose
    refine .inl ⟨?_, Tod.not_before_iff.mpr ?_, fun _ => Tod.before_iff.mpr ?_⟩
    · omega
    · omega
    · omega

/-- The answer on the day of the window, as long as the instant is in the range. -/
theorem active_on_day (hocc : Occurrence sched day start stop) (hrange : InRange sched t) (hday : t.day = day)
    (hstart : t.tod.before start = false) (hstop : stop.before start = false → t.tod.before stop = true) :
    isWithinWindow t (some sched) = !sched.unresolvable := by
  obtain ⟨win, hwin, hexclude, hallDay, hstartTime, hstopTime⟩ := hocc.window
  have hstartNonempty := parseTimeOfDay_nonempty hstartTime
  have hstopNonempty := parseTimeOfDay_nonempty hstopTime
  rw [InRange] at hrange
  cases hunresolvable : sched.unresolvable with
  | true => simp [isWithinWindow, hunresolvable]
  | false =>
    simp only [isWithinWindow, hunresolvable, hrange, hday, hwin, hexclude, hallDay, hstartTime, hstopTime,
      hstartNonempty, hstopNonempty, ne_eq, not_true_eq_false, Bool.false_eq_true, if_false, decide_false,
      Bool.or_self, hstart, Bool.not_false, Bool.true_or]
    cases hwraps : stop.before start with
    | true => rfl
    | false => simp [withinTimeOfDay, hstartTime, hstopTime, hocc.proper, hwraps, hstart, hstop hwraps]

/-- The tail of the window counts just in case it opened in the range. -/
theorem overnightTailActive_eq (hocc : Occurrence sched day start stop) (hwraps : stop.before start = true)
    (hday : t.day = day + 1) (htail : t.tod.before stop = true) :
    overnightTailActive t sched = decide (InRange sched (.date day start)) := by
  obtain ⟨win, hwin, hexclude, hallDay, hstartTime, hstopTime⟩ := hocc.window
  have hyesterday : weekday t.day + 6 = weekday day := by rw [hday, weekday_next]
  have hopened : t.day - 1 = day := by omega
  simp only [overnightTailActive, hyesterday, hwin, hexclude, hallDay, hstartTime, hstopTime,
    parseTimeOfDay_nonempty hstartTime, parseTimeOfDay_nonempty hstopTime, hocc.proper, hwraps, htail, hopened,
    Bool.false_eq_true, if_false, decide_false, Bool.or_self, Bool.not_true]
  rfl

/-- The answer in the tail: the tail itself, or the window of the next day. -/
theorem active_in_tail (hcomplete : Complete sched) (hocc : Occurrence sched day start stop)
    (hrange : InRange sched t) (hwraps : stop.before start = true) (hday : t.day = day + 1)
    (htail : t.tod.before stop = true) :
    isWithinWindow t (some sched)
      = (!sched.unresolvable && (ownWindowActive sched t || decide (InRange sched (.date day start)))) := by
  have htailEq := overnightTailActive_eq hocc hwraps hday htail
  rw [InRange] at hrange
  cases hunresolvable : sched.unresolvable with
  | true => simp [isWithinWindow, hunresolvable]
  | false =>
    simp only [isWithinWindow, hunresolvable, hrange, ownWindowActive, htailEq, ne_eq, not_true_eq_false,
      Bool.false_eq_true, if_false, Bool.not_false, Bool.true_and]
    cases hnext : effectiveDayWindow sched (weekday t.day) with
    | none =>
      -- a window of the day before is a time window, so the dates alone do not decide
      have htime : schedulerHasTimeWindow sched = true := by
        obtain ⟨win, hwin, -⟩ := hocc.window
        rw [schedulerHasTimeWindow]
        cases hempty : Tables.isEmpty sched.days with
        | false => exact Bool.or_true _
        | true =>
          rw [effectiveDayWindow, Tables.lookup_isEmpty hempty] at hwin
          dsimp only [Option.join_none] at hwin
          split at hwin
          · next hdaily => rw [hdaily]; rfl
          · cases hwin
      simp [htime]
    | some win =>
      have hexclude := hocc.nextDay hwraps win (hday ▸ hnext)
      cases hallDay : win.allDay with
      | true => simp [hexclude, hallDay]
      | false =>
        obtain ⟨start', stop', hstart', hstop'⟩ := hcomplete _ win hnext hexclude hallDay
        simp only [hexclude, hallDay, hstart', hstop', parseTimeOfDay_nonempty hstart', parseTimeOfDay_nonempty hstop',
          Bool.false_eq_true, if_false, decide_false, Bool.or_self, Bool.false_or, withinTimeOfDay]
        cases hwraps' : stop'.before start' with
        | true => simp only [if_true]
        | false =>
          by_cases hsame : start' = stop'
          · subst hsame
            simp only [if_true, Bool.false_eq_true, if_false, Bool.false_or]
            cases t.tod.before start' <;> rfl
          · simp only [hsame, Bool.false_eq_true, if_false]

end

/-- **One window, one answer.** For a scheduler whose windows are complete and parse and a day
whose window is neither excluded nor all-day, with different bounds and, past midnight, a next
day that is not excluded: at any two instants of the window inside the range of dates the answer
is the same, and it is that the policy is active, if the window ends on its day or opened inside
the range as well. The tail of a window that opened outside the range does not count: there the
answer is that of the next day's own window. -/
theorem window_steady (sched : SchedulerConfig) (hcomplete : Complete sched) (day : ℤ) (start stop : Tod)
    (hocc : Occurrence sched day start stop) :
    ((stop.before start = true → InRange sched (.date day start)) →
        ∀ t t', Inside day start stop t → Inside day start stop t' → InRange sched t → InRange sched t' →
          isWithinWindow t (some sched) = isWithinWindow t' (some sched)
            ∧ isWithinWindow t (some sched) = !sched.unresolvable)
      ∧ (stop.before start = true → ¬ InRange sched (.date day start) →
        ∀ t, Inside day start stop t → t.day = day + 1 → InRange sched t →
          isWithinWindow t (some sched) = (!sched.unresolvable && ownWindowActive sched t)) := by
  refine ⟨fun hopened => ?_, fun hwraps houtside t hinside hday hrange => ?_⟩
  · have hactive : ∀ t, Inside day start stop t → InRange sched t → isWithinWindow t (some sched) = !sched.unresolvable := by
      intro t hinside hrange
      rcases hinside.cases with ⟨hday, hstart, hstop⟩ | ⟨hwraps, hday, htail⟩
      · exact active_on_day hocc hrange hday hstart hstop
      · rw [active_in_tail hcomplete hocc hrange hwraps hday htail, decide_eq_true (hopened hwraps), Bool.or_true,
          Bool.and_true]
    intro t t' hinside hinside' hrange hrange'
    exact ⟨(hactive t hinside hrange).trans (hactive t' hinside' hrange').symm, hactive t hinside hrange⟩
  · rcases hinside.cases with ⟨hsameDay, -, -⟩ | ⟨-, -, htail⟩
    · omega
    · rw [active_in_tail hcomplete hocc hrange hwraps hday htail, decide_eq_false houtside, Bool.or_false]

/-- Windows whose bounds were all checked to parse. -/
theorem complete_of_forall {sched : SchedulerConfig}
    (h : ∀ wd, ∀ win ∈ effectiveDayWindow sched wd,
      ((parseTimeOfDay win.startTime).isSome && (parseTimeOfDay win.stopTime).isSome) = true) : Complete sched := by
  intro wd win hwin _ _
  have hsome := h wd win hwin
  rw [Bool.and_eq_true, Option.isSome_iff_exists, Option.isSome_iff_exists] at hsome
  obtain ⟨⟨start, hstart⟩, stop, hstop⟩ := hsome
  exact ⟨start, stop, hstart, hstop⟩

def tenPm : Tod := ⟨22, 0, 0, by decide⟩

def sixAm : Tod := ⟨6, 0, 0, by decide⟩

/-- Every night from 2026-06-10, a Wednesday. -/
def nightly : SchedulerConfig := ⟨bytes "22:00", bytes "06:00", bytes "2026-06-10", [], false, false, false, ∅⟩

theorem nightly_occurrence : Occurrence nightly 20614 tenPm sixAm where
  window := ⟨⟨bytes "22:00", bytes "06:00", false, false⟩, by decide +kernel, rfl, rfl, by decide +kernel,
    by decide +kernel⟩
  proper := by decide
  nextDay := by
    have hnext : ∀ win ∈ effectiveDayWindow nightly (weekday (20614 + 1)), win.exclude = false := by decide +kernel
    exact fun _ win hwin => hnext win hwin

theorem window_steady_nightly :
    isWithinWindow (.date 20614 ⟨23, 30, 0, by decide⟩) (some nightly) = true
      ∧ isWithinWindow (.date 20615 ⟨2, 0, 0, by decide⟩) (some nightly) = true := by
  have hcomplete : Complete nightly := complete_of_forall (by decide +kernel)
  have hopened : InRange nightly (.date 20614 tenPm) := by decide +kernel
  have h := (window_steady nightly hcomplete 20614 tenPm sixAm nightly_occurrence).1 (fun _ => hopened)
    (.date 20614 ⟨23, 30, 0, by decide⟩) (.date 20615 ⟨2, 0, 0, by decide⟩) (by decide +kernel) (by decide +kernel)
    (by decide +kernel) (by decide +kernel)
  exact ⟨h.2, h.1.symm.trans h.2⟩

/-- Friday nights and early Saturdays, from Saturday 2026-06-13. -/
def weekend : SchedulerConfig where
  startTime := []
  stopTime := []
  startDate := bytes "2026-06-13"
  stopDate := []
  allDay := false
  dailyExclude := false
  unresolvable := false
  days := ((∅ : Table Bytes (Option SchedulerDayWindow)).insert (bytes "friday")
    (some ⟨bytes "22:00", bytes "06:00", false, false⟩)).insert (bytes "saturday")
      (some ⟨bytes "00:00", bytes "05:00", false, false⟩)

theorem weekend_occurrence : Occurrence weekend 20616 tenPm sixAm where
  window := ⟨⟨bytes "22:00", bytes "06:00", false, false⟩, by decide +kernel, rfl, rfl, by decide +kernel,
    by decide +kernel⟩
  proper := by decide
  nextDay := by
    have hnext : ∀ win ∈ effectiveDayWindow weekend (weekday (20616 + 1)), win.exclude = false := by decide +kernel
    exact fun _ win hwin => hnext win hwin

/-- On that Saturday the window of Friday, which opened before the range, does not count: at four
Saturday's own window is open, at half past five none is. -/
theorem window_flips :
    ¬ ∀ (sched : SchedulerConfig) (day : ℤ) (start stop : Tod), Complete sched → Occurrence sched day start stop →
        ∀ t t', Inside day start stop t → Inside day start stop t' → InRange sched t → InRange sched t' →
          isWithinWindow t (some sched) = isWithinWindow t' (some sched) := by
  intro h
  have hcomplete : Complete weekend := complete_of_forall (by decide +kernel)
  have hsame := h weekend 20616 tenPm sixAm hcomplete weekend_occurrence (.date 20617 ⟨4, 0, 0, by decide⟩)
    (.date 20617 ⟨5, 30, 0, by decide⟩) (by decide +kernel) (by decide +kernel) (by decide +kernel) (by decide +kernel)
  revert hsame
  decide +kernel

end Xpf.Scheduler
