/-
The timer wheel and the clock.

A pass drains the bucket of every tick from the cursor up to the present one. The hints it
finds there that belong to a later round go to the back, and whatever it schedules again lies
in the present or later, so that when a bucket is drained no session with the cursor's tick is
left: the cursor never overtakes a session. What remains is that no session waits beyond its
deadline, and that a session is removed only when it has idled past its timeout.
-/
import Xpf.SessionHints

set_option autoImplicit false

namespace Xpf.Sessions

open Xpf.Handles

namespace Table

variable {t t' t'' : Table} {nowNs h : ℕ} {key : SessionKey} {r : SessionRecord}

/-! ## Draining a bucket -/

/-- Hints are only added, at the back of their buckets. -/
structure Appends (t t' : Table) : Prop where
  buckets : ∀ b, t.wheel.buckets b <+: t'.wheel.buckets b
  cursor : t'.wheel.cursorTick = t.wheel.cursorTick
  initialized : t'.wheel.initialized = t.wheel.initialized

theorem Appends.trans (h : Appends t t') (h' : Appends t' t'') : Appends t t'' :=
  ⟨fun b => (h.buckets b).trans (h'.buckets b), h'.cursor.trans h.cursor, h'.initialized.trans h.initialized⟩

theorem appends_of_eq (hwheel : t'.wheel = t.wheel) : Appends t t' := by
  refine ⟨fun b => ?_, by rw [hwheel], by rw [hwheel]⟩
  rewrite [hwheel]
  exact List.prefix_refl _

theorem appends_push (t : Table) (hint : WheelEntry) : Appends t { t with wheel := t.wheel.push hint } := by
  refine ⟨fun b => ?_, rfl, rfl⟩
  simp only [SessionWheel.push]
  by_cases hb : b = bucketForTick hint.scheduledTick
  · subst hb
    rw [Function.update_self]
    exact List.prefix_append _ _
  · rewrite [Function.update_of_ne hb]
    exact List.prefix_refl _

theorem wheel_updateByKey (t : Table) (key : SessionKey) (f : SessionEntry → SessionEntry) :
    (t.updateByKey key f).wheel = t.wheel := by
  unfold updateByKey
  split <;> rfl

theorem appends_rescheduleAt (t : Table) (key : SessionKey) (tick : ℕ) : Appends t (t.rescheduleAt key tick) := by
  unfold rescheduleAt
  split
  · exact appends_of_eq rfl
  · exact (appends_of_eq (wheel_updateByKey t key _)).trans (appends_push _ _)

theorem appends_stampRebucket (t : Table) (key : SessionKey) (f : SessionEntry → SessionEntry) (nowNs : ℕ) :
    Appends t ((t.updateByKey key f).rebucketAliveEntry key nowNs) := by
  have hstamp : Appends t (t.updateByKey key f) := appends_of_eq (wheel_updateByKey t key f)
  unfold rebucketAliveEntry
  split
  · exact hstamp
  · exact hstamp.trans (appends_rescheduleAt _ key _)

theorem appends_align (t : Table) (key : SessionKey) (nat : NatDecision) (nowNs : ℕ) :
    Appends t (t.alignNodeKeptCompanion key nat nowNs) := by
  unfold alignNodeKeptCompanion
  dsimp only
  split_ifs
  · exact appends_of_eq rfl
  · split
    · exact appends_of_eq rfl
    · split_ifs
      · exact appends_of_eq rfl
      · exact appends_stampRebucket t _ _ nowNs

theorem appends_holdEntry (t : Table) (key : SessionKey) (nowNs : ℕ) (ha : ExpireHaContext) (e : SessionEntry) :
    Appends t (t.holdEntry key nowNs ha e) := by
  have hwheel : ∀ f g, ((t.updateByKey key f).updateByKey key g).wheel = t.wheel := by
    intro f g
    rw [wheel_updateByKey, wheel_updateByKey]
  exact (appends_of_eq (hwheel _ _)).trans (appends_push _ _)

theorem appends_ageEntry (t : Table) (key : SessionKey) (nowNs : ℕ) (e : SessionEntry) (answer : Retention) :
    Appends t (t.ageEntry key nowNs e answer) := by
  cases answer with
  | expire => exact appends_of_eq (wheel_removeEntry t key)
  | keep lastSeenNs alignCompanion =>
    have hkept := appends_stampRebucket t key (.stampSeen lastSeenNs) nowNs
    cases alignCompanion with
    | false => exact hkept
    | true => exact hkept.trans (appends_align _ key e.decision.nat nowNs)
  | deferUntil deadlineNs => exact appends_rescheduleAt t key _

theorem appends_expireLapsed (t : Table) (key : SessionKey) (nowNs : ℕ) (pass : GcPass) (e : SessionEntry) :
    Appends t (t.expireLapsed key nowNs pass e) := by
  unfold expireLapsed
  split
  · exact appends_ageEntry t key nowNs e _
  · split
    · exact appends_stampRebucket t key _ nowNs
    · exact appends_holdEntry t key nowNs _ e
    · exact appends_of_eq (wheel_removeEntry t key)
    · exact appends_of_eq (wheel_removeEntry t key)
    · exact appends_ageEntry t key nowNs e _

theorem appends_processHint (t : Table) (hint : WheelEntry) (nowNs : ℕ) (pass : GcPass) :
    Appends t (t.processHint hint nowNs pass) := by
  unfold processHint
  split
  · exact appends_of_eq rfl
  · split_ifs
    · exact appends_of_eq rfl
    · exact appends_expireLapsed t hint.key nowNs pass _
    · exact appends_rescheduleAt t hint.key _

variable {pass : GcPass} {b c : ℕ} {w : WheelEntry} {rest : List WheelEntry}

/-- The session a hint speaks for is settled when the hint has been taken. -/
theorem settled_processHint (hready : Ready pass t) (hb : t.wheel.buckets b = w :: rest)
    (hg : t.entries.get h = some r) (hw : w = ⟨r.key, r.entry.wheelTick⟩) :
    Settled nowNs ((t.popped b rest).processHint w nowNs pass) h := by
  have hkeyed : (t.popped b rest).Keyed := hready.indexed.keyed
  have hr : (t.popped b rest).recordByKey w.key = some (h, r) := by
    rw [hw]
    exact hkeyed.recordByKey hg
  have hclear : ¬(t.popped b rest).Aliased w.key := by
    refine hready.effective.apart b w ?_
    rw [hb]
    exact List.mem_cons_self
  have hkey : r.key = w.key := by rw [hw]
  have he : (t.popped b rest).entryByKey w.key = some r.entry := by rw [entryByKey, hr]; rfl
  have hfresh : ¬StaleHint r.entry w.scheduledTick := by
    rw [hw]
    exact (hready.effective.hinted h r hg).2.not_stale
  simp only [processHint, he, if_neg hfresh]
  split_ifs
  · exact (visits_expireLapsed hkeyed hclear hr nowNs hready.clear).settled
  · exact settled_rescheduleAt hkey hr (le_targetTickFor nowNs _)

theorem clock_popFront (t : Table) (b nowNs : ℕ) (pass : GcPass) :
    (t.popFront b nowNs pass).wheel.cursorTick = t.wheel.cursorTick
      ∧ (t.popFront b nowNs pass).wheel.initialized = t.wheel.initialized := by
  unfold popFront
  split
  · exact ⟨rfl, rfl⟩
  · split_ifs
    · exact ⟨rfl, rfl⟩
    · have hadds := appends_processHint (t.popped b ‹_›) ‹_› nowNs pass
      exact ⟨hadds.cursor, hadds.initialized⟩

/-- The sessions with the cursor's tick have their hints among the first `n` of the bucket. -/
def HintsAhead (b c n : ℕ) (t : Table) : Prop :=
  ∃ front back, t.wheel.buckets b = front ++ back ∧ front.length = n
    ∧ ∀ h r, t.entries.get h = some r → r.entry.wheelTick = c → WheelEntry.mk r.key c ∈ front

theorem HintsAhead.popFront {n : ℕ} (hready : Ready pass t) (hcursor : t.wheel.cursorTick = c)
    (hlt : c < nowNs / wheelTickNs) (ha : HintsAhead b c (n + 1) t) : HintsAhead b c n (t.popFront b nowNs pass) := by
  subst hcursor
  obtain ⟨front, back, hb, hlen, hfront⟩ := ha
  obtain ⟨w, front, rfl⟩ := List.exists_cons_of_length_eq_add_one hlen
  rw [List.cons_append] at hb
  have hpaced := paced_popFront hready b nowNs
  simp only [Table.popFront, hb] at hpaced ⊢
  split_ifs at hpaced ⊢ with hlater
  · -- a hint of a later round speaks for no session of this tick
    refine ⟨front, back ++ [w], ?_, by simpa using hlen, fun h r hr htick => ?_⟩
    · show Function.update t.wheel.buckets b _ b = _
      rw [Function.update_self, List.append_assoc]
    · refine (List.mem_cons.mp (hfront h r hr htick)).resolve_left fun heq => ?_
      rw [← heq] at hlater
      exact lt_irrefl _ hlater
  · obtain ⟨added, hadded⟩ := (appends_processHint (t.popped b (front ++ back)) w nowNs pass).buckets b
    have hrest : (t.popped b (front ++ back)).wheel.buckets b = front ++ back := by
      show Function.update t.wheel.buckets b _ b = _
      rw [Function.update_self]
    rw [hrest] at hadded
    refine ⟨front, back ++ added, ?_, by simpa using hlen, fun h r' hr' htick => ?_⟩
    · rw [← List.append_assoc]
      exact hadded.symm
    · obtain ⟨r, hr, hflow, hpace⟩ := hpaced.session h r' hr'
      rcases hpace with ⟨hsame, -⟩ | ⟨hle, -⟩
      · have hmem := hfront h r hr (hsame ▸ htick)
        rw [← hflow.key] at hmem
        refine (List.mem_cons.mp hmem).resolve_left fun heq => ?_
        have hw : w = ⟨r.key, r.entry.wheelTick⟩ := by rw [← heq, hflow.key, ← hsame, htick]
        have hsettled := (settled_processHint hready hb hr hw r' hr').1
        omega
      · omega

theorem HintsAhead.drainBucket {n : ℕ} (hready : Ready pass t) (hcursor : t.wheel.cursorTick = c)
    (hlt : c < nowNs / wheelTickNs) (ha : HintsAhead b c n t) : HintsAhead b c 0 (Table.drainBucket b nowNs pass n t) := by
  induction n generalizing t with
  | zero => exact ha
  | succ n ih =>
    refine ih ?_ ?_ (ha.popFront hready hcursor hlt)
    · exact hready.next (paced_popFront hready b nowNs) (hready.indexed.popFront b nowNs pass)
    · rw [(clock_popFront t b nowNs pass).1, hcursor]

theorem clock_drainBucket (b nowNs : ℕ) (pass : GcPass) (n : ℕ) (t : Table) :
    (drainBucket b nowNs pass n t).wheel.cursorTick = t.wheel.cursorTick
      ∧ (drainBucket b nowNs pass n t).wheel.initialized = t.wheel.initialized := by
  induction n generalizing t with
  | zero => exact ⟨rfl, rfl⟩
  | succ n ih =>
    obtain ⟨hcursor, hinit⟩ := ih (t.popFront b nowNs pass)
    obtain ⟨hcursor', hinit'⟩ := clock_popFront t b nowNs pass
    exact ⟨hcursor.trans hcursor', hinit.trans hinit'⟩

/-! ## The cursor and the sessions -/

/-- The cursor has not overtaken a session. -/
def Ahead (t : Table) : Prop := ∀ h r, t.entries.get h = some r → t.wheel.cursorTick ≤ r.entry.wheelTick

theorem Ahead.paced (ha : t.Ahead) (hp : Paced nowNs t t') (hcursor : t'.wheel.cursorTick = t.wheel.cursorTick)
    (hnow : t.wheel.cursorTick ≤ nowNs / wheelTickNs) : t'.Ahead := by
  intro n r' hr'
  obtain ⟨r, hr, -, hpace⟩ := hp.session n r' hr'
  rw [hcursor]
  rcases hpace with ⟨htick, -⟩ | ⟨hle, -⟩
  · rw [htick]
    exact ha n r hr
  · exact le_trans hnow hle

/-- A tick of a pass: no session is left at the tick the cursor leaves. -/
theorem Ahead.advanceTick (ha : t.Ahead) (hready : Ready pass t) (hlt : t.wheel.cursorTick < nowNs / wheelTickNs) :
    (t.advanceTick nowNs pass).Ahead := by
  have hpaced := paced_drainBucket (bucketForTick t.wheel.cursorTick) nowNs
    (t.wheel.buckets (bucketForTick t.wheel.cursorTick)).length hready
  obtain ⟨hcursor, -⟩ := clock_drainBucket (bucketForTick t.wheel.cursorTick) nowNs pass
    (t.wheel.buckets (bucketForTick t.wheel.cursorTick)).length t
  have hstart : HintsAhead (bucketForTick t.wheel.cursorTick) t.wheel.cursorTick
      (t.wheel.buckets (bucketForTick t.wheel.cursorTick)).length t := by
    refine ⟨_, [], (List.append_nil _).symm, rfl, fun h r hr htick => ?_⟩
    have hqueued := (hready.effective.hinted h r hr).1
    rw [htick] at hqueued
    exact hqueued
  obtain ⟨front, back, -, hlen, hnone⟩ := hstart.drainBucket hready rfl hlt
  have hkept := ha.paced hpaced hcursor (le_of_lt hlt)
  intro n r hr
  have hle := hkept n r hr
  rw [hcursor] at hle
  have hne : r.entry.wheelTick ≠ t.wheel.cursorTick := by
    intro heq
    have hmem := hnone n r hr heq
    rw [List.length_eq_zero_iff.mp hlen] at hmem
    cases hmem
  show (drainBucket _ nowNs pass _ t).wheel.cursorTick + 1 ≤ _
  rw [hcursor]
  omega

theorem clock_advanceTick (t : Table) (nowNs : ℕ) (pass : GcPass) :
    (t.advanceTick nowNs pass).wheel.cursorTick = t.wheel.cursorTick + 1
      ∧ (t.advanceTick nowNs pass).wheel.initialized = t.wheel.initialized := by
  obtain ⟨hcursor, hinit⟩ := clock_drainBucket (bucketForTick t.wheel.cursorTick) nowNs pass
    (t.wheel.buckets (bucketForTick t.wheel.cursorTick)).length t
  exact ⟨congrArg (· + 1) hcursor, hinit⟩

theorem clock_advance (nowNs : ℕ) (pass : GcPass) (n : ℕ) (t : Table) :
    (Table.advance nowNs pass n t).wheel.cursorTick = t.wheel.cursorTick + n
      ∧ (Table.advance nowNs pass n t).wheel.initialized = t.wheel.initialized := by
  induction n generalizing t with
  | zero => exact ⟨rfl, rfl⟩
  | succ n ih =>
    obtain ⟨hcursor, hinit⟩ := ih (t.advanceTick nowNs pass)
    obtain ⟨hcursor', hinit'⟩ := clock_advanceTick t nowNs pass
    refine ⟨hcursor.trans ?_, hinit.trans hinit'⟩
    rw [hcursor']
    omega

/-- A pass takes the cursor over no session. -/
theorem Ahead.advance (ha : t.Ahead) (hready : Ready pass t) {n : ℕ}
    (hle : t.wheel.cursorTick + n ≤ nowNs / wheelTickNs) : (Table.advance nowNs pass n t).Ahead := by
  induction n generalizing t with
  | zero => exact ha
  | succ n ih =>
    have hready' := hready.next (paced_advanceTick nowNs hready) (Indexed.advance nowNs pass 1 hready.indexed)
    refine ih (ha.advanceTick hready (by omega)) hready' ?_
    rw [(clock_advanceTick t nowNs pass).1]
    omega

/-! ## The clock -/

/-- The table at a time: the cursor is not in the future and behind no session, and before the
wheel is started there is no session. -/
structure Timely (nowNs : ℕ) (t : Table) : Prop where
  ahead : t.Ahead
  cursor : t.wheel.cursorTick ≤ nowNs / wheelTickNs
  started : t.wheel.initialized = false → ∀ h, t.entries.get h = none

theorem Timely.mono {laterNs : ℕ} (ht : Timely nowNs t) (hle : nowNs ≤ laterNs) : Timely laterNs t :=
  ⟨ht.ahead, le_trans ht.cursor (Nat.div_le_div_right hle), ht.started⟩

theorem timely_new (config : Config) (nowNs : ℕ) : Timely nowNs (new config) := by
  refine ⟨fun h r hr => ?_, Nat.zero_le _, fun _ h => ?_⟩
  · simp [new] at hr
  · simp [new]

theorem observe_of_initialized {w : SessionWheel} (hw : w.initialized = true) (nowNs : ℕ) : w.observe nowNs = w := by
  simp [SessionWheel.observe, hw]

theorem Timely.observe_cursor (ht : Timely nowNs t) : (t.wheel.observe nowNs).cursorTick ≤ nowNs / wheelTickNs := by
  unfold SessionWheel.observe
  split_ifs
  · exact ht.cursor
  · exact le_refl _

/-- A wheel that starts now starts without sessions. -/
theorem Timely.observe (ht : Timely nowNs t) :
    Timely nowNs { t with wheel := t.wheel.observe nowNs }
      ∧ (t.wheel.observe nowNs).initialized = true := by
  cases hinit : t.wheel.initialized with
  | true =>
    rw [observe_of_initialized hinit]
    exact ⟨ht, hinit⟩
  | false =>
    have hinit' : (t.wheel.observe nowNs).initialized = true := by simp [SessionWheel.observe, hinit]
    refine ⟨⟨fun h r hr => ?_, ht.observe_cursor, fun hno => ?_⟩, hinit'⟩
    · have hnone := ht.started hinit h
      rw [show t.entries.get h = some r from hr] at hnone
      cases hnone
    · rw [show (t.wheel.observe nowNs).initialized = false from hno] at hinit'
      cases hinit'

/-- An operation that only appends hints once the wheel is started. -/
theorem Timely.paced (ht : Timely nowNs t) (hp : Paced nowNs t t')
    (hclock : t'.wheel.cursorTick = t.wheel.cursorTick ∧ t'.wheel.initialized = t.wheel.initialized) :
    Timely nowNs t' := by
  refine ⟨ht.ahead.paced hp hclock.1 ht.cursor, hclock.1 ▸ ht.cursor, fun hno h => ?_⟩
  rw [hclock.2] at hno
  cases hr : t'.entries.get h with
  | none => rfl
  | some r' =>
    obtain ⟨r, hr, -⟩ := hp.session h r' hr
    rw [ht.started hno h] at hr
    cases hr

theorem Timely.expireStaleEntries (ht : Timely nowNs t) (hready : Ready pass t) :
    Timely nowNs (t.expireStaleEntries nowNs pass) := by
  unfold Table.expireStaleEntries
  split_ifs
  · obtain ⟨hobs, hinit⟩ := ht.observe
    have hstamp : Paced nowNs t { t with lastGcNs := nowNs } := .of_eq rfl rfl
    have hpaced := hstamp.trans (paced_observe _ nowNs)
    have hready' := hready.next hpaced (hready.indexed.congr rfl rfl rfl rfl rfl)
    have hobs' : Timely nowNs { t with lastGcNs := nowNs, wheel := t.wheel.observe nowNs } :=
      ⟨hobs.ahead, hobs.cursor, hobs.started⟩
    have hle : (t.wheel.observe nowNs).cursorTick
        + (nowNs / wheelTickNs - (t.wheel.observe nowNs).cursorTick) ≤ nowNs / wheelTickNs := by
      have := ht.observe_cursor
      omega
    obtain ⟨hcursor, hinit'⟩ := clock_advance nowNs pass
      (nowNs / wheelTickNs - (t.wheel.observe nowNs).cursorTick)
      { t with lastGcNs := nowNs, wheel := t.wheel.observe nowNs }
    refine ⟨hobs'.ahead.advance hready' hle, ?_, fun hno => ?_⟩
    · rw [hcursor]
      exact hle
    · rw [hinit'] at hno
      rw [show (t.wheel.observe nowNs).initialized = false from hno] at hinit
      cases hinit
  · exact ht

/-- Where a pass leaves the cursor. -/
theorem Timely.cursor_expired (ht : Timely nowNs t) (hdue : t.GcDue nowNs) (pass : GcPass) :
    (t.expireStaleEntries nowNs pass).wheel.cursorTick = nowNs / wheelTickNs := by
  unfold Table.expireStaleEntries
  rw [if_pos hdue]
  dsimp only
  rw [(clock_advance nowNs pass _ _).1]
  have hle := ht.observe_cursor
  show (t.wheel.observe nowNs).cursorTick + (nowNs / wheelTickNs - (t.wheel.observe nowNs).cursorTick) = _
  omega

theorem initialized_observe (w : SessionWheel) (nowNs : ℕ) : (w.observe nowNs).initialized = true := by
  unfold SessionWheel.observe
  split_ifs with hw
  · exact hw
  · rfl

theorem clock_pushToWheel (t : Table) (key : SessionKey) (nowNs : ℕ) :
    (t.pushToWheel key nowNs).wheel.cursorTick = (t.wheel.observe nowNs).cursorTick
      ∧ (t.pushToWheel key nowNs).wheel.initialized = true := by
  have hinit := initialized_observe t.wheel nowNs
  cases hr : t.recordByKey key with
  | none =>
    rw [pushToWheel_of_none hr]
    exact ⟨rfl, hinit⟩
  | some p =>
    rw [pushToWheel_eq hr]
    cases pushTick p.2.entry (t.wheel.observe nowNs).cursorTick nowNs with
    | none => exact ⟨rfl, hinit⟩
    | some tick => exact ⟨rfl, hinit⟩

/-- Where there is a session the wheel is started. -/
theorem Timely.initialized (ht : Timely nowNs t) (hg : t.entries.get h = some r) : t.wheel.initialized = true := by
  cases hinit : t.wheel.initialized with
  | true => rfl
  | false =>
    rw [ht.started hinit h] at hg
    cases hg

theorem Timely.touch (ht : Timely nowNs t) (hclear : ¬t.Aliased key) : Timely nowNs (t.touch key nowNs) := by
  have hpaced := paced_touch hclear nowNs
  cases he : t.entryByKey key with
  | none =>
    have hsame : t.touch key nowNs = t := by simp only [Table.touch, he]
    rw [hsame]
    exact ht
  | some e =>
    obtain ⟨h, r, hr, -⟩ := entryByKey_eq_some he
    have hinit := ht.initialized (get_of_recordByKey hr)
    have htouch : t.touch key nowNs = (t.updateByKey key (.stampSeen nowNs)).pushToWheel key nowNs := by
      simp only [Table.touch, he]
    obtain ⟨hcursor, hstarted⟩ := clock_pushToWheel (t.updateByKey key (.stampSeen nowNs)) key nowNs
    refine ht.paced hpaced ⟨?_, ?_⟩
    · rw [htouch, hcursor, wheel_updateByKey, observe_of_initialized hinit]
    · rw [htouch, hstarted, hinit]

/-! ### Storing -/

/-- The ticks after a session is stored and hinted: the others keep theirs, and the new session
has the one it was stored with or one that is not in the past. -/
theorem ticks_storeHinted (hi : t.Indexed) (hl : t.keyToHandle.lookup key = none)
    {e : SessionEntry} (hclear : t.StoreClear key e.decision.nat e.metadata.isReverse) {n : ℕ}
    (hr : ((t.storeRecord ⟨key, e⟩).pushToWheel key nowNs).entries.get n = some r) :
    nowNs / wheelTickNs ≤ r.entry.wheelTick ∨ (r.entry.wheelTick = e.wheelTick ∧ ¬Unscheduled e)
      ∨ ∃ r₀, t.entries.get n = some r₀ ∧ r.entry.wheelTick = r₀.entry.wheelTick := by
  have hkeyed := keyed_storeRecord hi hl e
  have hget : (t.storeRecord ⟨key, e⟩).entries.get t.entries.vacantKey = some ⟨key, e⟩ := by
    show (t.entries.insert _).get _ = _
    rw [Slab.get_insert, if_pos rfl]
  have hown : ¬(t.storeRecord ⟨key, e⟩).Aliased key := by
    intro ha
    rcases aliased_storeRecord ha with ha | ⟨-, hne, -⟩
    · exact hclear.1 ha
    · exact hne rfl
  obtain ⟨r₀, hr₀, -, hpace⟩ := (paced_pushToWheel hown nowNs).session n r hr
  rcases hpace with ⟨htick, -⟩ | ⟨hle, -⟩
  · by_cases hn : n = t.entries.vacantKey
    · subst hn
      rw [hget] at hr₀
      obtain rfl := Option.some.inj hr₀
      by_cases hfresh : Unscheduled e
      · obtain ⟨hzero, hheld, hlater⟩ := hfresh
        exact Or.inl (settled_pushToWheel rfl (hkeyed.recordByKey hget)
          (pushTick_of_fresh hzero hheld hlater _ nowNs) r hr).1
      · exact Or.inr (Or.inl ⟨htick, hfresh⟩)
    · change (t.entries.insert _).get n = some r₀ at hr₀
      rw [Slab.get_insert, if_neg hn] at hr₀
      exact Or.inr (Or.inr ⟨r₀, hr₀, htick⟩)
  · exact Or.inl hle

/-- A session that takes another's place takes over its tick, or comes without one. -/
theorem Timely.replaceSession (ht : Timely nowNs t) (hi : t.Indexed) {entry : ℕ → UInt64 → SessionEntry}
    {nat : NatDecision} {isReverse : Bool} (hflow : ∀ epoch id, (entry epoch id).decision.nat = nat
      ∧ (entry epoch id).metadata.isReverse = isReverse)
    (hclear : t.StoreClear key nat isReverse) (givenId : UInt64)
    (htick : ∀ epoch id, Unscheduled (entry epoch id)
      ∨ ∃ h r, t.entries.get h = some r ∧ (entry epoch id).wheelTick = r.entry.wheelTick) :
    Timely nowNs (t.replaceSession key givenId nowNs entry) := by
  dsimp only [Table.replaceSession]
  obtain ⟨n, hn⟩ := takeSessionId_snd (t.removeEntry key).nextEpoch givenId
  have hremoved := hi.removeEntry key
  have hfree := lookup_removeEntry hi.keyed key
  have hwheel := wheel_removeEntry t key
  have hpaced := paced_removeEntry nowNs hi.keyed key
  generalize (t.removeEntry key).nextEpoch.takeSessionId givenId = taken at hn ⊢
  have hbase : taken.2.Indexed := by
    rw [hn]
    exact hremoved.congr rfl rfl rfl rfl rfl
  have htaken : Paced nowNs t taken.2 := by
    rw [hn]
    exact hpaced.trans (.of_eq rfl rfl)
  have hsame : taken.2.wheel = t.wheel := by
    rw [hn]
    exact hwheel
  have hlookup : taken.2.keyToHandle.lookup key = none := by
    rw [hn]
    exact hfree
  have hnew := htick taken.2.epochCounter taken.1
  obtain ⟨hnat, hrev⟩ := hflow taken.2.epochCounter taken.1
  generalize entry taken.2.epochCounter taken.1 = e at hnew hnat hrev ⊢
  have hstore : taken.2.StoreClear key e.decision.nat e.metadata.isReverse := by
    rw [hnat, hrev]
    exact hclear.paced htaken hsame
  have hstored : (taken.2.storeRecord ⟨key, e⟩).wheel = t.wheel := hsame
  obtain ⟨hcursor, hstarted⟩ := clock_pushToWheel (taken.2.storeRecord ⟨key, e⟩) key nowNs
  rw [hstored] at hcursor
  have hnow := ht.observe_cursor
  -- a session of the old table is not behind the cursor, and the wheel was started with it
  have hbefore : ∀ n r, t.entries.get n = some r → (t.wheel.observe nowNs).cursorTick ≤ r.entry.wheelTick := by
    intro n r hr
    rw [observe_of_initialized (ht.initialized hr)]
    exact ht.ahead n r hr
  rw [countStored_eq]
  refine ⟨fun n r hr => ?_, ?_, fun hno => ?_⟩
  · show ((taken.2.storeRecord ⟨key, e⟩).pushToWheel key nowNs).wheel.cursorTick ≤ _
    rw [hcursor]
    rcases ticks_storeHinted hbase hlookup hstore hr with hle | ⟨heq, hfresh⟩ | ⟨r₀, hr₀, heq⟩
    · exact le_trans hnow hle
    · obtain ⟨h₀, r₀, hr₀, htick₀⟩ := hnew.resolve_left hfresh
      rw [heq, htick₀]
      exact hbefore h₀ r₀ hr₀
    · obtain ⟨r₁, hr₁, -, hpace⟩ := htaken.session n r₀ hr₀
      rw [heq]
      rcases hpace with ⟨hkept, -⟩ | ⟨hle, -⟩
      · rw [hkept]
        exact hbefore n r₁ hr₁
      · exact le_trans hnow hle
  · show ((taken.2.storeRecord ⟨key, e⟩).pushToWheel key nowNs).wheel.cursorTick ≤ _
    rw [hcursor]
    exact hnow
  · rw [show ((taken.2.storeRecord ⟨key, e⟩).pushToWheel key nowNs).wheel.initialized = false from hno] at hstarted
    cases hstarted

theorem Timely.installWithOrigin (ht : Timely nowNs t) (hi : t.Indexed) {req : InstallRequest}
    (hclear : t.StoreClear req.key req.decision.nat req.metadata.isReverse)
    (hlater : wheelTickNs ≤ saturatingAdd nowNs (installTimeout t.config req)) :
    Timely nowNs (t.installWithOrigin req nowNs) := by
  unfold Table.installWithOrigin
  split_ifs
  · exact ht
  · exact ht.replaceSession hi (fun _ _ => ⟨rfl, rfl⟩) hclear _ fun _ _ => Or.inl ⟨rfl, rfl, hlater⟩

theorem Timely.upsertSyncedWithOrigin (ht : Timely nowNs t) (hi : t.Indexed) {req : ImportRequest}
    (hclear : t.StoreClear req.key req.decision.nat req.metadata.isReverse)
    (hlater : req.resent t = none → wheelTickNs ≤ saturatingAdd nowNs (req.timeout t.config (t.entryByKey req.key))) :
    Timely nowNs (t.upsertSyncedWithOrigin req nowNs) := by
  unfold Table.upsertSyncedWithOrigin
  split_ifs
  · exact ht
  · refine ht.replaceSession hi (fun _ _ => ⟨req.storedDecision_nat _, rfl⟩) hclear _ fun epoch id => ?_
    cases hres : req.resent t with
    | none => exact Or.inl (unscheduled_importEntry hres (hlater hres) epoch id)
    | some kept =>
      obtain ⟨hfound, -⟩ := Option.filter_eq_some_iff.mp hres
      obtain ⟨h, r, hr, rfl⟩ := entryByKey_eq_some hfound
      refine Or.inr ⟨h, r, get_of_recordByKey hr, ?_⟩
      unfold ImportRequest.resent at hres
      simp only [importEntry, hres, Option.map_some, Option.getD_some]

/-! ## What a pass spares -/

/-- Sessions that have not idled past their timeout stay, and stay so. -/
def Spares (nowNs : ℕ) (t t' : Table) : Prop :=
  ∀ h r, t.entries.get h = some r → ¬r.entry.Lapsed nowNs →
    ∃ r', t'.entries.get h = some r' ∧ r'.key = r.key ∧ ¬r'.entry.Lapsed nowNs

theorem Spares.trans (h : Spares nowNs t t') (h' : Spares nowNs t' t'') : Spares nowNs t t'' := by
  intro n r hr hlive
  obtain ⟨r', hr', hkey, hlive'⟩ := h n r hr hlive
  obtain ⟨r'', hr'', hkey', hlive''⟩ := h' n r' hr' hlive'
  exact ⟨r'', hr'', hkey'.trans hkey, hlive''⟩

theorem spares_of_eq (hentries : t'.entries = t.entries) : Spares nowNs t t' := by
  intro n r hr hlive
  exact ⟨r, hentries ▸ hr, rfl, hlive⟩

theorem spares_updateEntry {f : SessionEntry → SessionEntry}
    (hf : ∀ r, t.entries.get h = some r → ¬r.entry.Lapsed nowNs → ¬(f r.entry).Lapsed nowNs) :
    Spares nowNs t (t.updateEntry h f) := by
  intro n r hr hlive
  have hget : (t.updateEntry h f).entries.get n = if n = h then (t.entries.get h).map
      (fun r => { r with entry := f r.entry }) else t.entries.get n := Slab.get_update t.entries h _ n
  by_cases hn : n = h
  · subst hn
    exact ⟨{ r with entry := f r.entry }, by rw [hget, if_pos rfl, hr]; rfl, rfl, hf r hr hlive⟩
  · exact ⟨r, by rw [hget, if_neg hn, hr], rfl, hlive⟩

theorem spares_updateByKey {f : SessionEntry → SessionEntry}
    (hf : ∀ h r, t.recordByKey key = some (h, r) → ¬r.entry.Lapsed nowNs → ¬(f r.entry).Lapsed nowNs) :
    Spares nowNs t (t.updateByKey key f) := by
  unfold updateByKey
  split
  · exact spares_of_eq rfl
  · next h r hr =>
    refine spares_updateEntry fun r' hr' hlive => ?_
    rw [get_of_recordByKey hr] at hr'
    obtain rfl := Option.some.inj hr'
    exact hf h r hr hlive

/-- Rescheduling touches no idle time. -/
theorem spares_rescheduleAt (t : Table) (key : SessionKey) (tick nowNs : ℕ) :
    Spares nowNs t (t.rescheduleAt key tick) := by
  unfold rescheduleAt
  split
  · exact spares_of_eq rfl
  · exact (spares_updateByKey (f := scheduleAt tick) fun _ _ _ hlive => hlive).trans (spares_of_eq rfl)

theorem spares_stampRebucket {f : SessionEntry → SessionEntry}
    (hf : ∀ h r, t.recordByKey key = some (h, r) → ¬r.entry.Lapsed nowNs → ¬(f r.entry).Lapsed nowNs) :
    Spares nowNs t ((t.updateByKey key f).rebucketAliveEntry key nowNs) := by
  have hstamp := spares_updateByKey hf
  unfold rebucketAliveEntry
  split
  · exact hstamp
  · exact hstamp.trans (spares_rescheduleAt _ key _ nowNs)

theorem not_lapsed_stampSeen (nowNs : ℕ) (e : SessionEntry) : ¬(e.stampSeen nowNs).Lapsed nowNs := by
  simp [SessionEntry.Lapsed, SessionEntry.stampSeen]

theorem spares_align (t : Table) (key : SessionKey) (nat : NatDecision) (nowNs : ℕ) :
    Spares nowNs t (t.alignNodeKeptCompanion key nat nowNs) := by
  unfold alignNodeKeptCompanion
  dsimp only
  split_ifs
  · exact spares_of_eq rfl
  · split
    · exact spares_of_eq rfl
    · split_ifs
      · exact spares_of_eq rfl
      · exact spares_stampRebucket fun _ r _ _ => not_lapsed_stampSeen nowNs r.entry

theorem spares_removeEntry (hk : t.Keyed) (hr : t.recordByKey key = some (h, r)) (hlapsed : r.entry.Lapsed nowNs) :
    Spares nowNs t (t.removeEntry key) := by
  cases hl : t.keyToHandle.lookup key with
  | none =>
    rw [removeEntry_of_lookup_none hl]
    exact spares_of_eq rfl
  | some h₀ =>
    obtain ⟨e, hg⟩ := hk.get hl
    have hfound := hk.recordByKey hg
    rw [hr] at hfound
    obtain ⟨rfl, rfl⟩ := Prod.mk.inj (Option.some.inj hfound)
    intro n r' hr' hlive
    refine ⟨r', ?_, rfl, hlive⟩
    have hget := get_removeEntry hk hg n
    rw [hget, if_neg, hr']
    rintro rfl
    rw [hg] at hr'
    obtain rfl := Option.some.inj hr'
    exact hlive hlapsed

theorem spares_scheduleHeldRecheck (t : Table) (key : SessionKey) (nowNs first ceiling : ℕ) :
    Spares nowNs t (t.scheduleHeldRecheck key nowNs first ceiling) := by
  obtain ⟨tick, heq⟩ : ∃ tick, t.scheduleHeldRecheck key nowNs first ceiling =
      { t.updateByKey key (heldEntry tick first) with
        wheel := (t.updateByKey key (heldEntry tick first)).wheel.push ⟨key, tick⟩ } :=
    ⟨heldRecheckTick nowNs first ceiling, rfl⟩
  have hheld : Spares nowNs t (t.updateByKey key (heldEntry tick first)) :=
    spares_updateByKey fun _ _ _ hlive => hlive
  rw [heq]
  exact hheld.trans (spares_of_eq rfl)

/-- The one session a pass can remove or age is the lapsed one its hint leads to. -/
theorem spares_expireLapsed (hk : t.Keyed) (hr : t.recordByKey key = some (h, r)) (hlapsed : r.entry.Lapsed nowNs)
    (pass : GcPass) : Spares nowNs t (t.expireLapsed key nowNs pass r.entry) := by
  have hself : ∀ (f : SessionEntry → SessionEntry) h' r', t.recordByKey key = some (h', r') →
      ¬r'.entry.Lapsed nowNs → ¬(f r'.entry).Lapsed nowNs := by
    intro f h' r' hr' hlive
    rw [hr] at hr'
    obtain ⟨rfl, rfl⟩ := Prod.mk.inj (Option.some.inj hr')
    exact absurd hlapsed hlive
  have hremove := spares_removeEntry hk hr hlapsed
  have hage : ∀ answer, Spares nowNs t (t.ageEntry key nowNs r.entry answer) := by
    intro answer
    cases answer with
    | expire => exact hremove
    | keep lastSeenNs alignCompanion =>
      have hkept := spares_stampRebucket (hself (.stampSeen lastSeenNs))
      cases alignCompanion with
      | false => exact hkept
      | true => exact hkept.trans (spares_align _ key _ nowNs)
    | deferUntil deadlineNs => exact spares_rescheduleAt t key _ nowNs
  unfold expireLapsed
  split
  · exact hage _
  · split
    · exact spares_stampRebucket (hself _)
    · exact (spares_updateByKey (hself (heldSince _))).trans (spares_scheduleHeldRecheck _ key nowNs _ _)
    · exact hremove
    · exact hremove
    · exact hage _

theorem spares_popFront (hk : t.Keyed) (b nowNs : ℕ) (pass : GcPass) : Spares nowNs t (t.popFront b nowNs pass) := by
  unfold popFront
  split
  · exact spares_of_eq rfl
  · next w rest hb =>
    split_ifs
    · exact spares_of_eq rfl
    · have hkeyed : (t.popped b rest).Keyed := hk
      have hpop : Spares nowNs t (t.popped b rest) := spares_of_eq rfl
      refine hpop.trans ?_
      show Spares nowNs (t.popped b rest) ((t.popped b rest).processHint w nowNs pass)
      unfold processHint
      split
      · exact spares_of_eq rfl
      · next he =>
        obtain ⟨h, r, hr, rfl⟩ := entryByKey_eq_some he
        split_ifs with hstale hlapsed
        · exact spares_of_eq rfl
        · exact spares_expireLapsed hkeyed hr hlapsed pass
        · exact spares_rescheduleAt _ w.key _ nowNs

theorem spares_drainBucket (b nowNs : ℕ) (pass : GcPass) (n : ℕ) (hi : t.Indexed) :
    Spares nowNs t (drainBucket b nowNs pass n t) := by
  induction n generalizing t with
  | zero => exact spares_of_eq rfl
  | succ n ih => exact (spares_popFront hi.keyed b nowNs pass).trans (ih (hi.popFront b nowNs pass))

theorem spares_advance (nowNs : ℕ) (pass : GcPass) (n : ℕ) (hi : t.Indexed) :
    Spares nowNs t (Table.advance nowNs pass n t) := by
  induction n generalizing t with
  | zero => exact spares_of_eq rfl
  | succ n ih =>
    have hdrain : Spares nowNs t (t.advanceTick nowNs pass) :=
      (spares_drainBucket _ nowNs pass _ hi).trans (spares_of_eq rfl)
    exact hdrain.trans (ih (Indexed.advance nowNs pass 1 hi))

/-- A pass removes no session that has not idled past its timeout. -/
theorem spares_expireStaleEntries (hi : t.Indexed) (nowNs : ℕ) (pass : GcPass) :
    Spares nowNs t (t.expireStaleEntries nowNs pass) := by
  unfold expireStaleEntries
  split_ifs
  · have hobs : Spares nowNs t { t with lastGcNs := nowNs, wheel := t.wheel.observe nowNs } := spares_of_eq rfl
    exact hobs.trans (spares_advance nowNs pass _ (hi.congr rfl rfl rfl rfl rfl))
  · exact spares_of_eq rfl

/-! ## Deadlines -/

/-- The session is not held, and looked at no later than in the tick of its deadline. -/
def OnTime (e : SessionEntry) : Prop := e.heldWheelTick = 0 ∧ e.wheelTick ≤ e.expirationNs / wheelTickNs

def Punctual (t : Table) : Prop := ∀ h r, t.entries.get h = some r → OnTime r.entry

theorem targetTickFor_le {expirationNs : ℕ} (hle : nowNs / wheelTickNs ≤ expirationNs / wheelTickNs) :
    targetTickFor nowNs expirationNs ≤ expirationNs / wheelTickNs := by
  simp only [targetTickFor]
  generalize expirationNs / wheelTickNs = expirationTick at hle ⊢
  generalize nowNs / wheelTickNs = nowTick at hle ⊢
  omega

theorem onTime_scheduleAt {e : SessionEntry} (hle : nowNs / wheelTickNs ≤ e.expirationNs / wheelTickNs) :
    OnTime (scheduleAt (targetTickFor nowNs e.expirationNs) e) := ⟨rfl, targetTickFor_le hle⟩

theorem onTime_pushEntry {e : SessionEntry} (hheld : e.heldWheelTick = 0)
    (hle : nowNs / wheelTickNs ≤ e.expirationNs / wheelTickNs) (cursorTick : ℕ) :
    OnTime (pushEntry cursorTick nowNs e) := by
  cases hp : pushTick e cursorTick nowNs with
  | some tick =>
    rw [pushEntry_of_some hp, target_of_pushTick hp]
    exact onTime_scheduleAt hle
  | none =>
    -- nothing is queued because the session already has the tick it would get
    have htick : targetTickFor nowNs e.expirationNs = e.wheelTick := by
      unfold pushTick at hp
      simp only [hheld, ne_eq, not_true_eq_false, and_false, if_false] at hp
      by_contra hne
      rw [if_pos hne] at hp
      cases hp
    have hbound := htick ▸ targetTickFor_le hle
    rcases pushEntry_of_none hp with heq | heq
    · rw [heq]
      exact ⟨hheld, hbound⟩
    · rw [heq]
      exact ⟨rfl, hbound⟩

theorem punctual_pushToWheel (hr : t.recordByKey key = some (h, r)) (hheld : r.entry.heldWheelTick = 0)
    (hle : nowNs / wheelTickNs ≤ r.entry.expirationNs / wheelTickNs)
    (hothers : ∀ n r', n ≠ h → t.entries.get n = some r' → OnTime r'.entry) : (t.pushToWheel key nowNs).Punctual := by
  intro n r' hr'
  rw [pushToWheel_eq hr] at hr'
  change (t.entries.update h _).get n = some r' at hr'
  rw [Slab.get_update] at hr'
  split at hr'
  · rw [get_of_recordByKey hr] at hr'
    obtain rfl := Option.some.inj hr'
    exact onTime_pushEntry hheld hle _
  · next hn => exact hothers n r' hn hr'

theorem le_saturatingAdd {a : ℕ} (ha : a ≤ u64Max) (b : ℕ) : a ≤ saturatingAdd a b := by
  unfold saturatingAdd
  omega

/-- A session seen just now has its deadline ahead. -/
theorem due_of_seen (hmax : nowNs ≤ u64Max) (expiresAfterNs : ℕ) :
    nowNs / wheelTickNs ≤ saturatingAdd nowNs expiresAfterNs / wheelTickNs :=
  Nat.div_le_div_right (le_saturatingAdd hmax expiresAfterNs)

/-- And so has one that has not idled past its timeout. -/
theorem due_of_not_lapsed (hmax : nowNs ≤ u64Max) {e : SessionEntry} (hlive : ¬e.Lapsed nowNs) :
    nowNs / wheelTickNs ≤ e.expirationNs / wheelTickNs := by
  refine Nat.div_le_div_right ?_
  simp only [SessionEntry.Lapsed, not_lt, gt_iff_lt] at hlive
  unfold SessionEntry.expirationNs saturatingAdd
  omega

theorem Punctual.touch (hp : t.Punctual) (hk : t.Keyed) (hclear : ¬t.Aliased key) (hmax : nowNs ≤ u64Max) :
    (t.touch key nowNs).Punctual := by
  unfold Table.touch
  split
  · exact hp
  · next he =>
    obtain ⟨h, r, hr, -⟩ := entryByKey_eq_some he
    obtain rfl := key_of_not_aliased hclear hr
    have hg := get_of_recordByKey hr
    rw [updateByKey_eq hr]
    refine punctual_pushToWheel (hk.recordByKey_updateEntry hg (.stampSeen nowNs)) (hp h r hg).1
      (due_of_seen hmax _) fun n r' hn hr' => ?_
    change (t.entries.update h _).get n = some r' at hr'
    rw [Slab.get_update, if_neg hn] at hr'
    exact hp n r' hr'

theorem Punctual.removeEntry (hp : t.Punctual) (hk : t.Keyed) (key : SessionKey) : (t.removeEntry key).Punctual := by
  cases hl : t.keyToHandle.lookup key with
  | none => rwa [removeEntry_of_lookup_none hl]
  | some h =>
    obtain ⟨e, hg⟩ := hk.get hl
    intro n r hr
    have hget := get_removeEntry hk hg n
    rw [hget] at hr
    split at hr
    · cases hr
    · exact hp n r hr

theorem Punctual.replaceSession (hp : t.Punctual) (hi : t.Indexed) {entry : ℕ → UInt64 → SessionEntry} (givenId : UInt64)
    (hheld : ∀ epoch id, (entry epoch id).heldWheelTick = 0)
    (hdue : ∀ epoch id, nowNs / wheelTickNs ≤ (entry epoch id).expirationNs / wheelTickNs) :
    (t.replaceSession key givenId nowNs entry).Punctual := by
  dsimp only [Table.replaceSession]
  obtain ⟨n, hn⟩ := takeSessionId_snd (t.removeEntry key).nextEpoch givenId
  have hremoved := hi.removeEntry key
  have hfree := lookup_removeEntry hi.keyed key
  have hpunctual := hp.removeEntry hi.keyed key
  generalize (t.removeEntry key).nextEpoch.takeSessionId givenId = taken at hn ⊢
  have hbase : taken.2.Indexed := by
    rw [hn]
    exact hremoved.congr rfl rfl rfl rfl rfl
  have hlookup : taken.2.keyToHandle.lookup key = none := by
    rw [hn]
    exact hfree
  have hothers : taken.2.Punctual := by
    rw [hn]
    exact hpunctual
  have hget : (taken.2.storeRecord ⟨key, entry taken.2.epochCounter taken.1⟩).entries.get taken.2.entries.vacantKey
      = some ⟨key, entry taken.2.epochCounter taken.1⟩ := by
    show (taken.2.entries.insert _).get _ = _
    rw [Slab.get_insert, if_pos rfl]
  have hr := (keyed_storeRecord hbase hlookup (entry taken.2.epochCounter taken.1)).recordByKey hget
  rw [countStored_eq]
  refine punctual_pushToWheel hr (hheld _ _) (hdue _ _) fun n r hn hr => ?_
  change (taken.2.entries.insert _).get n = some r at hr
  rw [Slab.get_insert, if_neg hn] at hr
  exact hothers n r hr

theorem Punctual.installWithOrigin (hp : t.Punctual) (hi : t.Indexed) (req : InstallRequest) (hmax : nowNs ≤ u64Max) :
    (t.installWithOrigin req nowNs).Punctual := by
  unfold Table.installWithOrigin
  split_ifs
  · exact hp
  · exact hp.replaceSession hi _ (fun _ _ => rfl) fun _ _ => due_of_seen hmax _

/-- The import finds the session before its deadline's tick is over. -/
def ImportRequest.InTime (req : ImportRequest) (t : Table) (nowNs : ℕ) : Prop :=
  ∀ e, req.resent t = some e →
    nowNs / wheelTickNs ≤ saturatingAdd e.lastSeenNs (req.timeout t.config (t.entryByKey req.key)) / wheelTickNs

theorem Punctual.upsertSyncedWithOrigin (hp : t.Punctual) (hi : t.Indexed) {req : ImportRequest}
    (hmax : nowNs ≤ u64Max) (htime : req.InTime t nowNs) : (t.upsertSyncedWithOrigin req nowNs).Punctual := by
  unfold Table.upsertSyncedWithOrigin
  split_ifs
  · exact hp
  · cases hres : req.resent t with
    | none =>
      unfold ImportRequest.resent at hres
      refine hp.replaceSession hi _ (fun _ _ => ?_) fun _ _ => ?_
      · simp only [importEntry, hres, Option.map_none, Option.getD_none]
      · simp only [SessionEntry.expirationNs, importEntry, hres, Option.map_none, Option.getD_none]
        exact due_of_seen hmax _
    | some kept =>
      have hdue := htime kept hres
      obtain ⟨hfound, -⟩ := Option.filter_eq_some_iff.mp hres
      obtain ⟨h, r, hr, rfl⟩ := entryByKey_eq_some hfound
      have hheld := (hp h r (get_of_recordByKey hr)).1
      unfold ImportRequest.resent at hres
      refine hp.replaceSession hi _ (fun _ _ => ?_) fun _ _ => ?_
      · simp only [importEntry, hres, Option.map_some, Option.getD_some]
        exact hheld
      · simp only [SessionEntry.expirationNs, importEntry, hres, Option.map_some, Option.getD_some]
        exact hdue

/-- A pass without gate and companions removes what has lapsed and reschedules the rest. -/
theorem Punctual.popFront (hp : t.Punctual) (hk : t.Keyed) (hmax : nowNs ≤ u64Max) (b : ℕ) :
    (t.popFront b nowNs .plain).Punctual := by
  unfold Table.popFront
  split
  · exact hp
  · next w rest hb =>
    split_ifs
    · exact hp
    · have hpop : (t.popped b rest).Punctual := hp
      have hkeyed : (t.popped b rest).Keyed := hk
      show ((t.popped b rest).processHint w nowNs .plain).Punctual
      unfold Table.processHint
      split
      · exact hpop
      · next he =>
        obtain ⟨h, r, hr, rfl⟩ := entryByKey_eq_some he
        split_ifs with hstale hlapsed
        · exact hpop
        · exact hpop.removeEntry hkeyed w.key
        · intro n r' hr'
          simp only [rescheduleAt, he, updateByKey_eq hr] at hr'
          change ((t.popped b rest).entries.update h _).get n = some r' at hr'
          rw [Slab.get_update] at hr'
          split at hr'
          · rw [get_of_recordByKey hr] at hr'
            obtain rfl := Option.some.inj hr'
            exact onTime_scheduleAt (due_of_not_lapsed hmax hlapsed)
          · exact hpop n r' hr'

theorem Punctual.drainBucket (b n : ℕ) (hmax : nowNs ≤ u64Max) (hp : t.Punctual) (hi : t.Indexed) :
    (Table.drainBucket b nowNs .plain n t).Punctual := by
  induction n generalizing t with
  | zero => exact hp
  | succ n ih => exact ih (hp.popFront hi.keyed hmax b) (hi.popFront b nowNs .plain)

theorem Punctual.advance (n : ℕ) (hmax : nowNs ≤ u64Max) (hp : t.Punctual) (hi : t.Indexed) :
    (Table.advance nowNs .plain n t).Punctual := by
  induction n generalizing t with
  | zero => exact hp
  | succ n ih => exact ih (hp.drainBucket _ _ hmax hi) (Indexed.advance nowNs .plain 1 hi)

theorem Punctual.expireStaleEntries (hp : t.Punctual) (hi : t.Indexed) (hmax : nowNs ≤ u64Max) :
    (t.expireStaleEntries nowNs .plain).Punctual := by
  unfold Table.expireStaleEntries
  split_ifs
  · exact Punctual.advance (t := { t with lastGcNs := nowNs, wheel := t.wheel.observe nowNs }) _ hmax hp
      (hi.congr rfl rfl rfl rfl rfl)
  · exact hp

/-! ## Every history of the wheel -/

/-- The operations that place sessions on the wheel and take them off. -/
def WheelOp : Op → Prop
  | .install _ => True
  | .importSynced _ => True
  | .touch _ => True
  | .delete _ => True
  | .expire _ => True
  | _ => False

/-- The event keeps aliases and hints apart, and a session is resent in time. -/
def KeepsWheel (t : Table) (ev : Event) : Prop :=
  t.KeepsApart ev ∧ ∀ req, ev.op = .importSynced req → req.InTime t ev.nowNs

theorem Timely.step {ev : Event} (ht : Timely ev.nowNs t) (hi : t.Indexed) (he : t.Effective) (hop : WheelOp ev.op)
    (hev : t.KeepsApart ev) : Timely ev.nowNs (t.step ev) := by
  obtain ⟨nowNs, op⟩ := ev
  cases op with
  | install req => exact ht.installWithOrigin hi hev.1 hev.2
  | importSynced req => exact ht.upsertSyncedWithOrigin hi hev.1 hev.2
  | touch key => exact ht.touch hev
  | delete key =>
    have hwheel := wheel_removeEntry t key
    exact ht.paced (paced_removeEntry nowNs hi.keyed key) ⟨congrArg _ hwheel, congrArg _ hwheel⟩
  | expire pass => exact ht.expireStaleEntries ⟨hi, he, hev⟩
  | _ => cases hop

theorem Punctual.step {ev : Event} (hp : t.Punctual) (hi : t.Indexed) (hop : WheelOp ev.op)
    (hplain : ∀ pass, ev.op = .expire pass → pass = .plain) (hmax : ev.nowNs ≤ u64Max) (hev : t.KeepsWheel ev) :
    (t.step ev).Punctual := by
  obtain ⟨nowNs, op⟩ := ev
  cases op with
  | install req => exact hp.installWithOrigin hi req hmax
  | importSynced req => exact hp.upsertSyncedWithOrigin hi hmax (hev.2 req rfl)
  | touch key => exact hp.touch hi.keyed hev.1 hmax
  | delete key => exact hp.removeEntry hi.keyed key
  | expire pass =>
    obtain rfl := hplain pass rfl
    exact hp.expireStaleEntries hi hmax
  | _ => cases hop

theorem run_timely (config : Config) {history : List Event} (hops : ∀ ev ∈ history, WheelOp ev.op)
    (hclock : history.Pairwise fun a b => a.nowNs ≤ b.nowNs)
    (hsteps : Runs.EachStep step (new config) KeepsApart history) {nowNs : ℕ} (hnow : ∀ ev ∈ history, ev.nowNs ≤ nowNs) :
    Timely nowNs (run config history) := by
  -- from the right: the last event comes after all the others
  induction history using List.reverseRecOn generalizing nowNs with
  | nil => exact timely_new config nowNs
  | append_singleton before ev ih =>
    have hpre := List.prefix_append before [ev]
    have hbefore := hsteps.mono hpre
    obtain ⟨hpair, -, hlast⟩ := List.pairwise_append.mp hclock
    have ht := ih (fun a ha => hops a (by simp [ha])) hpair hbefore
      fun a ha => hlast a ha ev (List.mem_singleton_self ev)
    have hstep := ht.step (run_indexed config before) (run_effective config hbefore) (hops ev (by simp))
      (hsteps before ev (List.prefix_refl _))
    rw [run, Runs.run_snoc]
    exact hstep.mono (hnow ev (by simp))

theorem run_punctual (config : Config) {history : List Event} (hops : ∀ ev ∈ history, WheelOp ev.op)
    (hplain : ∀ ev ∈ history, ∀ pass, ev.op = .expire pass → pass = .plain) (hmax : ∀ ev ∈ history, ev.nowNs ≤ u64Max)
    (hsteps : Runs.EachStep step (new config) KeepsWheel history) : (run config history).Punctual := by
  induction history using List.reverseRecOn with
  | nil =>
    intro h r hr
    simp [run, Runs.run, new] at hr
  | append_singleton before ev ih =>
    have hpre := List.prefix_append before [ev]
    have hp := ih (fun a ha => hops a (by simp [ha])) (fun a ha => hplain a (by simp [ha]))
      (fun a ha => hmax a (by simp [ha])) (hsteps.mono hpre)
    rw [run, Runs.run_snoc]
    exact hp.step (run_indexed config before) (hops ev (by simp)) (hplain ev (by simp)) (hmax ev (by simp))
      (hsteps before ev (List.prefix_refl _))

/-- **The timer wheel.** In every history of installs, imports, touches, deletes and passes with a
clock that does not go back, whose events keep aliases and hints apart and resend in time:
every session has a hint for its key that carries its tick, is not behind the cursor and stands
in the bucket of the tick; a pass removes no session whose idle time is at most its timeout; and
where no pass has a gate or a companion, after a pass every session that is left has its deadline
in the tick of the pass or later. -/
theorem run_wheel_scheduled (config : Config) {history : List Event} (hops : ∀ ev ∈ history, WheelOp ev.op)
    (hclock : history.Pairwise fun a b => a.nowNs ≤ b.nowNs) (hmax : ∀ ev ∈ history, ev.nowNs ≤ u64Max)
    (hsteps : Runs.EachStep step (new config) KeepsWheel history) :
    let t := run config history
    (∀ h r, t.entries.get h = some r → ∃ w ∈ t.wheel.buckets (r.entry.wheelTick % 256),
        w.key = r.key ∧ w.scheduledTick = r.entry.wheelTick ∧ t.wheel.cursorTick ≤ w.scheduledTick)
      ∧ (∀ nowNs pass h r, t.entries.get h = some r → nowNs - r.entry.lastSeenNs ≤ r.entry.expiresAfterNs →
        ∃ r', (t.expireStaleEntries nowNs pass).entries.get h = some r' ∧ r'.key = r.key)
      ∧ ((∀ ev ∈ history, ∀ pass, ev.op = .expire pass → pass = .plain) →
        ∀ nowNs, (∀ ev ∈ history, ev.nowNs ≤ nowNs) → nowNs ≤ u64Max → t.GcDue nowNs →
          ∀ h r, (t.expireStaleEntries nowNs .plain).entries.get h = some r →
            ¬r.entry.expirationNs / wheelTickNs < nowNs / wheelTickNs) := by
  intro t
  have hapart : Runs.EachStep step (new config) KeepsApart history := fun before ev hpre => (hsteps before ev hpre).1
  have hi : t.Indexed := run_indexed config history
  have he : t.Effective := run_effective config hapart
  refine ⟨fun h r hr => ?_, fun nowNs pass h r hr hidle => ?_, fun hplain nowNs hnow hlast hdue h r hr => ?_⟩
  · have ht : Timely u64Max t := run_timely config hops hclock hapart hmax
    exact ⟨⟨r.key, r.entry.wheelTick⟩, (he.hinted h r hr).1, rfl, rfl, ht.ahead h r hr⟩
  · obtain ⟨r', hr', hkey, -⟩ := spares_expireStaleEntries hi nowNs pass h r hr (not_lt.mpr hidle)
    exact ⟨r', hr', hkey⟩
  · have ht := run_timely config hops hclock hapart hnow
    have hready : Ready .plain t := ⟨hi, he, fun _ _ _ _ hkeep => by cases hkeep⟩
    have hcursor := ht.cursor_expired hdue .plain
    have hahead := (ht.expireStaleEntries hready).ahead h r hr
    have hdeadline := ((run_punctual config hops hplain hmax hsteps).expireStaleEntries hi hlast h r hr).2
    rw [hcursor] at hahead
    exact not_lt.mpr (le_trans hahead hdeadline)

/-! ### A session resent after its deadline, and a session touched by its alias -/

/-- A UDP session of the peer, under an id of the peer's. -/
def peerSession : ImportRequest where
  key := ⟨afInet, protoUdp, .v4 10, .v4 20, 1000, 53, .none, 0⟩
  decision := ⟨.forwardCandidate, .default, 0, 0⟩
  metadata := ⟨1, 2, 0, 0, 0, false, false, none, 0, 0⟩
  origin := .syncImport
  protocol := protoUdp
  tcpFlags := 0
  sessionId := 7
  tcpCloseClass := 0
  tcpHandshakeState := 0
  allowReplaceLocal := false
  pmechConflict := false

/-- Imported at 0 with a timeout of 60 seconds, resent at 100 seconds, and a pass half a second
later. -/
def resentLate : List Event :=
  [⟨0, .importSynced peerSession⟩, ⟨100000000000, .importSynced peerSession⟩, ⟨100500000000, .expire .plain⟩]

/-- A reply session, touched after five seconds by its alias. -/
def touchedAlias : List Event :=
  [⟨0, .install (flowRequest (tcpKey 20 30 80 1000) { NatDecision.default with rewriteDst := some (.v4 10) } true)⟩,
    ⟨5000000000, .touch (tcpKey 20 10 80 1000)⟩]

set_option maxRecDepth 16384 in
/-- The pass does not come to the session resent late, whose deadline was 40 seconds ago. The
session touched by its alias has a tick no hint under its key carries. -/
theorem wheel_leaves_behind :
    ((run plainConfig resentLate).sessionAt peerSession.key).map (fun e => e.expirationNs / wheelTickNs) = some 60
      ∧ 60 < 100500000000 / wheelTickNs
      ∧ (run plainConfig (resentLate.take 2)).GcDue 100500000000
      ∧ ((run plainConfig touchedAlias).sessionAt (tcpKey 20 30 80 1000)).map (fun e => e.wheelTick) = some 260
      ∧ (⟨tcpKey 20 30 80 1000, 260⟩ : WheelEntry) ∉ (run plainConfig touchedAlias).wheel.buckets (260 % 256) := by
  decide +kernel

theorem touchedFlow_scheduled :
    ∃ h r, (run plainConfig touchedFlow).entries.get h = some r
      ∧ (∃ w ∈ (run plainConfig touchedFlow).wheel.buckets (r.entry.wheelTick % 256),
        w.key = r.key ∧ w.scheduledTick = r.entry.wheelTick)
      ∧ ∀ h r, ((run plainConfig touchedFlow).expireStaleEntries secondNs .plain).entries.get h = some r →
        ¬r.entry.expirationNs / wheelTickNs < secondNs / wheelTickNs := by
  have hops : ∀ ev ∈ touchedFlow, WheelOp ev.op := by
    intro ev hev
    simp only [touchedFlow, List.mem_cons, List.not_mem_nil, or_false] at hev
    rcases hev with rfl | rfl <;> exact trivial
  have hmax : ∀ ev ∈ touchedFlow, ev.nowNs ≤ secondNs ∧ ev.nowNs ≤ u64Max := by decide
  have hnone : ∀ ev ∈ touchedFlow, (∀ pass, ev.op ≠ .expire pass) ∧ ∀ req, ev.op ≠ .importSynced req := by
    intro ev hev
    simp only [touchedFlow, List.mem_cons, List.not_mem_nil, or_false] at hev
    rcases hev with rfl | rfl <;> simp
  have hsteps : Runs.EachStep step (new plainConfig) KeepsWheel touchedFlow := by
    intro before ev hpre
    have hmem : ev ∈ touchedFlow := hpre.subset (by simp)
    exact ⟨touchedFlow_keepsApart before ev hpre, fun req hreq => absurd hreq ((hnone ev hmem).2 req)⟩
  obtain ⟨r, hr⟩ : ∃ r, (run plainConfig touchedFlow).entries.get 0 = some r :=
    Option.isSome_iff_exists.mp (by decide +kernel)
  obtain ⟨hhint, -, hpass⟩ := run_wheel_scheduled plainConfig hops (by decide) (fun ev hev => (hmax ev hev).2) hsteps
  obtain ⟨w, hw, hkey, htick, -⟩ := hhint 0 r hr
  refine ⟨0, r, hr, ⟨w, hw, hkey, htick⟩, ?_⟩
  exact hpass (fun ev hev pass hpass => absurd hpass ((hnone ev hev).1 pass)) secondNs
    (fun ev hev => (hmax ev hev).1) (by decide) (by decide +kernel)

end Table

end Xpf.Sessions
