/-
Replays of authenticated heartbeats: when a frame that was admitted can be admitted again.

The floor keeps out what is below it, and the ring what it remembers. A frame that can
still pass the floor is therefore safe as long as the ring keeps the watermark of its
session, and the ring forgets the session whose slot is the oldest, not the one that has
been silent longest: a session that was recorded early and then raised the floor, or that
was admitted above the floor because the clock did not vouch for its epoch, can lose its
watermark while its frames still pass.
-/
import Xpf.HeartbeatAuth

set_option autoImplicit false

namespace Xpf.HeartbeatAuth

/-! ## Losing a watermark -/

/-- A frame with an epoch passes a floor and the session budget at it, on some clock. -/
def passesFloor (highEpoch : UInt64) (sessions : EpochSessions) (f : Frame) : Bool :=
  highEpoch < f.epoch || (f.epoch = highEpoch && epochSessionAdmissible sessions f.session)

/-- The floor once a frame has been admitted. -/
def floorAfter (g : EpochGate) (f : Frame) (nowNanos : Int64) : UInt64 :=
  if raises g f nowNanos then f.epoch else g.highEpoch

/-- The sessions bound at the floor once a frame has been admitted. -/
def sessionsAfter (g : EpochGate) (f : Frame) (nowNanos : Int64) : EpochSessions :=
  bindEpochSession g.highEpochSessions f.session (raises g f nowNanos)

/-- The step overwrites a watermark that is still needed: a frame with an epoch comes
through the gates with a session the ring does not know, the ring is full, and of the
session whose slot is next a frame has been admitted that can pass the floor afterwards. -/
def LosesWatermark (h : History) (i : Input) : Prop :=
  i.1.hasEpoch = true ∧ passesGates h.state.toEpochGate i.1 i.2 = true
    ∧ h.state.replay.lookup i.1.session = none
    ∧ ∃ a ∈ h.admitted, a.frame.hasEpoch = true ∧ h.state.replay.evicted = some a.frame.session
      ∧ passesFloor (floorAfter h.state.toEpochGate i.1 i.2) (sessionsAfter h.state.toEpochGate i.1 i.2) a.frame
        = true

/-- No frame that was admitted can be admitted again, whatever the clock, once the latch
is set. -/
def NoReplay (h : History) : Prop :=
  ∀ a ∈ h.admitted, h.state.epochSeen = true → ∀ nowNanos, (admitAuthed h.state a.frame nowNanos).ok = false

/-! ## The watermarks that are needed -/

/-- The ring remembers every session of which an admitted frame can pass the floor. -/
def History.Remembers (h : History) : Prop :=
  ∀ a ∈ h.admitted, a.frame.hasEpoch = true →
    passesFloor h.state.highEpoch h.state.highEpochSessions a.frame = true →
      ∃ mark, h.state.replay.lookup a.frame.session = some mark ∧ a.frame.counter ≤ mark

theorem passesFloor_of_passesGates {g : EpochGate} {f : Frame} {nowNanos : Int64} (hepoch : f.hasEpoch = true)
    (h : passesGates g f nowNanos = true) : passesFloor g.highEpoch g.highEpochSessions f = true := by
  unfold passesFloor
  obtain ⟨-, hraise | ⟨-, -, -, hadm, ⟨hat, -⟩ | hdecl⟩⟩ := of_passesGates hepoch h
  · unfold raises at hraise
    rw [(Bool.and_eq_true_iff.mp hraise).1, Bool.true_or]
  · rw [hadm, Bool.and_true, decide_eq_true hat, Bool.or_true]
  · unfold declines at hdecl
    rw [(Bool.and_eq_true_iff.mp hdecl).1, Bool.true_or]

/-- On a clock that is not credible, what passes the floor passes the gates. -/
theorem passesGates_of_passesFloor {g : EpochGate} {f : Frame} (hepoch : f.hasEpoch = true)
    (husable : epochUsableAsFloor f.epoch = true) (h : passesFloor g.highEpoch g.highEpochSessions f = true) :
    passesGates g f 0 = true := by
  have hwithin : epochWithinForwardBound f.epoch 0 = true := rfl
  unfold passesGates raises
  rw [if_pos hepoch, husable, hwithin, Bool.true_and, Bool.and_true]
  unfold passesFloor at h
  rcases Bool.or_eq_true_iff.mp h with hlt | hat
  · rw [hlt, Bool.true_or]
  · obtain ⟨hat, hadm⟩ := Bool.and_eq_true_iff.mp hat
    rw [hat, hadm, Bool.true_or, Bool.and_true, Bool.or_true]

/-- What the ring remembers cannot be replayed. -/
theorem History.Remembers.noReplay {h : History} (hmem : h.Remembers) : NoReplay h := by
  intro a ha hseen nowNanos
  by_contra hok
  have hok : (admitAuthed h.state a.frame nowNanos).ok = true := by simpa using hok
  obtain ⟨hpass, hring, -⟩ := of_admitted hok
  by_cases hepoch : a.frame.hasEpoch = true
  · obtain ⟨mark, hmark, hle⟩ := hmem a ha hepoch (passesFloor_of_passesGates hepoch hpass)
    exact absurd (admit_ok.mp hring mark hmark) (UInt64.not_lt.mpr hle)
  · unfold passesGates at hpass
    rw [if_neg hepoch, hseen] at hpass
    cases hpass

/-- The floor and the budget after an admission, and the ring. -/
theorem gate_of_admitted {s : HeartbeatAuthState} {f : Frame} {nowNanos : Int64} (hepoch : f.hasEpoch = true)
    (hok : (admitAuthed s f nowNanos).ok = true) :
    (admitAuthed s f nowNanos).state.highEpoch = floorAfter s.toEpochGate f nowNanos
      ∧ (admitAuthed s f nowNanos).state.highEpochSessions = sessionsAfter s.toEpochGate f nowNanos
      ∧ (admitAuthed s f nowNanos).state.replay = (replayAdmit s.replay f.session f.counter).2 := by
  obtain ⟨-, -, hgate⟩ := of_admitted hok
  rw [hgate]
  unfold gateAfter
  rw [if_pos hepoch]
  exact ⟨rfl, rfl, rfl⟩

/-- Binding an admissible session leaves no session admissible that was not. -/
theorem admissible_of_bind {s : EpochSessions} {session k : UInt64} (hadm : epochSessionAdmissible s session = true)
    (h : epochSessionAdmissible (bindEpochSession s session false) k = true) :
    epochSessionAdmissible s k = true := by
  unfold epochSessionAdmissible at h ⊢
  rcases Bool.or_eq_true_iff.mp h with hmem | hfree
  · rw [List.contains_iff_mem, mem_bindEpochSession hadm] at hmem
    rcases hmem with rfl | hmem
    · exact hadm
    · rw [List.contains_iff_mem.mpr hmem, Bool.true_or]
  · have hlen : s.bound.length ≤ (bindEpochSession s session false).bound.length := by
      unfold bindEpochSession
      rw [if_neg Bool.false_ne_true]
      split_ifs <;> simp
    rw [decide_eq_true (Nat.lt_of_le_of_lt hlen (of_decide_eq_true hfree)), Bool.or_true]

/-- **The floor only tightens**: what passes it after an admission has passed it before. -/
theorem passesFloor_of_after {g : EpochGate} {f : Frame} {nowNanos : Int64} (hepoch : f.hasEpoch = true)
    (hpass : passesGates g f nowNanos = true) {e : Frame}
    (h : passesFloor (floorAfter g f nowNanos) (sessionsAfter g f nowNanos) e = true) :
    passesFloor g.highEpoch g.highEpochSessions e = true := by
  unfold passesFloor floorAfter sessionsAfter at *
  obtain ⟨-, hraise | ⟨hraise, -, -, hadm, -⟩⟩ := of_passesGates hepoch hpass
  · have hlt : g.highEpoch < f.epoch := by
      unfold raises at hraise
      exact of_decide_eq_true (Bool.and_eq_true_iff.mp hraise).1
    have hle : f.epoch ≤ e.epoch := by
      rw [if_pos hraise] at h
      rcases Bool.or_eq_true_iff.mp h with hgt | hat
      · exact UInt64.le_of_lt (of_decide_eq_true hgt)
      · rw [of_decide_eq_true (Bool.and_eq_true_iff.mp hat).1]
        exact UInt64.le_refl _
    rw [decide_eq_true (UInt64.lt_of_lt_of_le hlt hle), Bool.true_or]
  · rw [if_neg (by rw [hraise]; decide), hraise] at h
    rcases Bool.or_eq_true_iff.mp h with hgt | hat
    · rw [hgt, Bool.true_or]
    · obtain ⟨hat, hbudget⟩ := Bool.and_eq_true_iff.mp hat
      rw [hat, Bool.true_and, admissible_of_bind hadm hbudget, Bool.or_true]

/-- A step that loses no watermark keeps the memory of the ring complete. -/
theorem History.Remembers.step {h : History} (hinv : h.Inv) (hmem : h.Remembers) {i : Input}
    (hkeep : ¬ LosesWatermark h i) : (h.step i).Remembers := by
  obtain ⟨f, nowNanos⟩ := i
  unfold History.step
  dsimp only
  cases hok : (admitAuthed h.state f nowNanos).ok with
  | false =>
    rw [if_neg Bool.false_ne_true]
    unfold History.Remembers
    dsimp only
    rw [of_refused hok]
    exact hmem
  | true =>
    rw [if_pos rfl]
    intro a ha hsigned hfloor
    obtain ⟨hpass, hring, -⟩ := of_admitted hok
    by_cases hepoch : f.hasEpoch = true
    · obtain ⟨hhigh, hsessions, hreplay⟩ := gate_of_admitted hepoch hok
      dsimp only at ha hfloor ⊢
      rw [hhigh, hsessions] at hfloor
      rw [hreplay, lookup_admit hring]
      rcases List.mem_append.mp ha with ha | ha
      · obtain ⟨mark, hmark, hle⟩ := hmem a ha hsigned (passesFloor_of_after hepoch hpass hfloor)
        by_cases hsame : a.frame.session = f.session
        · -- the session of the frame: its counter has gone up
          rw [if_pos hsame]
          rw [hsame] at hmark
          exact ⟨f.counter, rfl, UInt64.le_trans hle (UInt64.le_of_lt (admit_ok.mp hring mark hmark))⟩
        · rw [if_neg hsame, if_neg]
          · exact ⟨mark, hmark, hle⟩
          · rintro ⟨hnew, hevict⟩
            exact hkeep ⟨hepoch, hpass, hnew, a, ha, hsigned, hevict, hfloor⟩
      · rw [List.mem_singleton.mp ha, if_pos rfl]
        exact ⟨f.counter, rfl, UInt64.le_refl _⟩
    · -- no frame with an epoch has been admitted yet
      exfalso
      unfold passesGates at hpass
      rw [if_neg hepoch] at hpass
      rcases List.mem_append.mp ha with ha | ha
      · rw [hinv.latched a ha hsigned] at hpass
        cases hpass
      · rw [List.mem_singleton.mp ha] at hsigned
        exact hepoch hsigned

/-- Admitted epochs are plausible. -/
theorem usable_of_admitted (inputs : List Input) :
    ∀ a ∈ (history inputs).admitted, a.frame.hasEpoch = true → epochUsableAsFloor a.frame.epoch = true := by
  refine Runs.run_invariant (P := fun h : History =>
    ∀ a ∈ h.admitted, a.frame.hasEpoch = true → epochUsableAsFloor a.frame.epoch = true) (by simp) ?_ inputs
  rintro h ⟨f, nowNanos⟩ hall
  unfold History.step
  dsimp only
  split_ifs with hok
  · intro a ha hsigned
    rcases List.mem_append.mp ha with ha | ha
    · exact hall a ha hsigned
    · rw [List.mem_singleton.mp ha] at hsigned ⊢
      exact (of_passesGates hsigned (of_admitted hok).1).1
  · exact hall

/-- A step that loses a watermark opens the way for a replay. -/
theorem not_noReplay_of_losesWatermark {before : List Input} {i : Input} (h : LosesWatermark (history before) i) :
    ¬ NoReplay (history (before ++ [i])) := by
  obtain ⟨f, nowNanos⟩ := i
  obtain ⟨hepoch, hpass, hnew, a, ha, hsigned, hevict, hfloor⟩ := h
  dsimp only at hepoch hpass hnew hfloor
  have hring : (replayAdmit (history before).state.replay f.session f.counter).1 = true := by
    rw [admit_ok, hnew]
    intro mark hmark
    cases hmark
  have hok : (admitAuthed (history before).state f nowNanos).ok = true := by
    rw [(admitAuthed_spec _ f nowNanos).1, hpass, hring]
    rfl
  obtain ⟨hhigh, hsessions, hreplay⟩ := gate_of_admitted hepoch hok
  have hne : a.frame.session ≠ f.session := fun heq => FifoRing.lookup_evicted hevict (heq ▸ hnew)
  intro hno
  rw [history_snoc] at hno
  unfold History.step NoReplay at hno
  dsimp only at hno
  rw [if_pos hok] at hno
  have hseen := ((history_inv before).admitted hok).1 (Or.inr hepoch)
  have hrefused := hno a (List.mem_append_left _ ha) hseen 0
  have hagain : (admitAuthed (admitAuthed (history before).state f nowNanos).state a.frame 0).ok = true := by
    rw [(admitAuthed_spec _ a.frame 0).1]
    apply Bool.and_eq_true_iff.mpr
    constructor
    · apply passesGates_of_passesFloor hsigned (usable_of_admitted before a ha hsigned)
      rw [hhigh, hsessions]
      exact hfloor
    · -- the ring has just forgotten the session
      rw [admit_ok, hreplay, lookup_admit hring, if_neg hne, if_pos ⟨hnew, hevict⟩]
      intro mark hmark
      cases hmark
  rw [hrefused] at hagain
  cases hagain

/-- **When frames can be replayed.** Along every sequence of frames and clock readings, no
admitted frame can be admitted again from any state that is reached, exactly if no step
loses a watermark that is still needed. -/
theorem noReplay_iff (inputs : List Input) :
    Runs.EachStep History.step ⟨emptyState, []⟩ (fun h i => ¬ LosesWatermark h i) inputs
      ↔ ∀ before, before <+: inputs → NoReplay (history before) := by
  constructor
  · intro heach before hbefore
    apply History.Remembers.noReplay
    have hboth : (history before).Inv ∧ (history before).Remembers := by
      refine Runs.run_invariant_of (P := fun h : History => h.Inv ∧ h.Remembers)
        (C := fun h i => ¬ LosesWatermark h i) ⟨inv_start, by simp [History.Remembers]⟩ ?_ (heach.mono hbefore)
      rintro h i hkeep ⟨hinv, hmem⟩
      exact ⟨hinv.step i, hmem.step hinv hkeep⟩
    exact hboth.2
  · intro hno before i hbefore hloses
    exact not_noReplay_of_losesWatermark hloses (hno _ hbefore)

/-- A single signed frame loses nothing, and cannot be replayed. -/
theorem noReplay_signed : NoReplay (history [(signedFrame, 1790000000000000000)]) := by
  refine (noReplay_iff [(signedFrame, 1790000000000000000)]).mp ?_ _ (List.prefix_refl _)
  rintro before i hbefore ⟨-, -, -, a, ha, -⟩
  have hlen := hbefore.length_le
  rw [List.length_append, List.length_singleton, List.length_singleton] at hlen
  obtain rfl : before = [] := List.eq_nil_of_length_eq_zero (by omega)
  cases ha

/-- Sessions `0` to `63` fill the ring; session `0` signs an epoch; session `64` joins it at
that epoch, and takes the slot of session `0`. -/
def churnedRun : List Input :=
  (List.range 64).map (fun n => (⟨false, 0, UInt64.ofNat n, 1⟩, 1790000000000000000))
    ++ [(⟨true, 1790000000000000000, 0, 2⟩, 1790000000000000000),
      (⟨true, 1790000000000000000, 64, 1⟩, 1790000000000000000)]

/-- The frame of session `0` is admitted a second time. -/
theorem churnedRun_replays :
    (history churnedRun).state.epochSeen = true
      ∧ ⟨⟨true, 1790000000000000000, 0, 2⟩, 1790000000000000000⟩ ∈ (history churnedRun).admitted
      ∧ (admitAuthed (history churnedRun).state ⟨true, 1790000000000000000, 0, 2⟩ 1790000000000000000).ok = true := by
  decide +kernel

end Xpf.HeartbeatAuth
