/-
Admission of authenticated heartbeats: `pkg/cluster/heartbeat_epoch_admit.go`,
`heartbeat_auth_replay.go` and the epoch predicates of `heartbeat_epoch.go`.

A frame whose MAC has verified carries a session, a counter and (from a peer that is new
enough) a boot epoch. Two mechanisms decide on it. The epoch floor orders incarnations of
the peer: it only rises, what is below it is refused, and at one value of it a bounded
number of sessions is admitted. The replay ring remembers the last counter of the latest
64 sessions. `EpochGate` is the part of the state these decisions read, and everything
else the function writes is reported beside it.
-/
import Xpf.FifoRing
import Xpf.Runs
import Mathlib.Data.Finset.Card

set_option autoImplicit false

namespace Xpf.HeartbeatAuth

/-! ## The replay ring -/

/-- `heartbeatReplaySessions`. -/
def heartbeatReplaySessions : ℕ := 64

/-- `heartbeatAuthReplay`: the high-water counters of the remembered sessions. -/
abbrev HeartbeatAuthReplay := FifoRing UInt64 UInt64 heartbeatReplaySessions

/-- `heartbeatAuthReplay.admit`. -/
def replayAdmit (a : HeartbeatAuthReplay) (session counter : UInt64) : Bool × HeartbeatAuthReplay :=
  match h : a.lookup session with
  | some mark => if mark < counter then (true, a.update session counter) else (false, a)
  | none => (true, a.insert session counter h)

/-! ## Epochs -/

/-- `epochPlausibleMax`: 2200-01-01 in nanoseconds. -/
def epochPlausibleMax : UInt64 := 7258118400000000000

/-- `bootEpochMaxSkew`: one hour. -/
def bootEpochMaxSkew : UInt64 := 60 * 60 * 1000000000

/-- `epochClockSaneFloor`: 2020-01-01 in nanoseconds. -/
def epochClockSaneFloor : UInt64 := 1577836800000000000

/-- `epochUsableAsFloor`. -/
def epochUsableAsFloor (epoch : UInt64) : Bool := 0 < epoch && epoch < epochPlausibleMax

/-- `epochWithinForwardBound`. -/
def epochWithinForwardBound (epoch : UInt64) (nowNanos : Int64) : Bool :=
  if 0 < nowNanos && epochClockSaneFloor ≤ nowNanos.toUInt64 then
    !(nowNanos.toUInt64 + bootEpochMaxSkew < epoch)
  else true

/-- `heartbeatEpochSessionsPerEpoch`. -/
def heartbeatEpochSessionsPerEpoch : ℕ := 2

/-- The sessions bound at the floor: the occupied slots of `highEpochSessions`. -/
structure EpochSessions where
  bound : List UInt64
  withinBudget : bound.length ≤ heartbeatEpochSessionsPerEpoch
deriving DecidableEq

/-- `epochSessionAdmissible`. -/
def epochSessionAdmissible (s : EpochSessions) (session : UInt64) : Bool :=
  s.bound.contains session || s.bound.length < heartbeatEpochSessionsPerEpoch

/-- `bindEpochSession`. -/
def bindEpochSession (s : EpochSessions) (session : UInt64) (reset : Bool) : EpochSessions :=
  if reset then ⟨[session], Nat.le_succ 1⟩
  else if s.bound.contains session then s
  else if h : s.bound.length < heartbeatEpochSessionsPerEpoch then
    ⟨s.bound ++ [session], by rw [List.length_append]; exact h⟩
  else s

/-! ## The state -/

/-- What decides on a frame: the ring, the floor, the sessions bound at it, and the latch
that is set once the peer has signed an epoch. -/
structure EpochGate where
  replay : HeartbeatAuthReplay
  highEpoch : UInt64
  highEpochSessions : EpochSessions
  epochSeen : Bool

/-- `heartbeatAuthState`, as far as admission uses it: the gate, the counters, and the
bookkeeping of the durable record. -/
structure HeartbeatAuthState extends EpochGate where
  epochDowngradeRejected : UInt64
  epochlessAdmitted : UInt64
  epochOutOfBandRejected : UInt64
  epochSessionCollision : UInt64
  epochRaiseDeclinedAheadOfClock : UInt64
  peerEpochPersistGeneration : UInt64
  peerEpochPersistOwed : Bool

/-- The state of a manager that has seen nothing: all zero. -/
def emptyState : HeartbeatAuthState where
  replay := FifoRing.empty (by decide)
  highEpoch := 0
  highEpochSessions := ⟨[], by decide⟩
  epochSeen := false
  epochDowngradeRejected := 0
  epochlessAdmitted := 0
  epochOutOfBandRejected := 0
  epochSessionCollision := 0
  epochRaiseDeclinedAheadOfClock := 0
  peerEpochPersistGeneration := 0
  peerEpochPersistOwed := false

/-- A frame whose MAC has verified. -/
structure Frame where
  hasEpoch : Bool
  epoch : UInt64
  session : UInt64
  counter : UInt64
deriving DecidableEq

/-! ## Admission -/

/-- The answer of `admitAuthed` and the state it leaves. -/
structure Outcome where
  ok : Bool
  reason : String
  state : HeartbeatAuthState

def collisionReason : String :=
  "too many peer sessions at one boot epoch (peer cannot advance its "
    ++ "epoch store, or a replayed capture set sharing one epoch)"

/-- The end of `admitAuthed`: an epoch that has passed the gates is put before the ring,
and an admitted frame arms the latch, raises the floor or binds its session. -/
def admitEpoch (s : HeartbeatAuthState) (f : Frame) (declineRaise : Bool) : Outcome :=
  match replayAdmit s.replay f.session f.counter with
  | (false, replay) => ⟨false, "", { s with replay := replay }⟩
  | (true, replay) =>
    let epochSeen := s.epochSeen || !declineRaise
    let raise := s.highEpoch < f.epoch && !declineRaise
    let highEpoch := if raise then f.epoch else s.highEpoch
    let highEpochSessions := bindEpochSession s.highEpochSessions f.session raise
    let bindingsChanged := highEpochSessions ≠ s.highEpochSessions
    let owed := bindingsChanged ∨ (epochSeen && !s.epochSeen)
    let generation := s.peerEpochPersistGeneration + 1
    ⟨true, "", { s with
      replay := replay
      epochSeen := epochSeen
      highEpoch := highEpoch
      highEpochSessions := highEpochSessions
      peerEpochPersistGeneration :=
        if owed then (if generation = 0 then 1 else generation) else s.peerEpochPersistGeneration
      peerEpochPersistOwed := if owed then true else s.peerEpochPersistOwed }⟩

/-- `admitAuthed`. -/
def admitAuthed (s : HeartbeatAuthState) (f : Frame) (nowNanos : Int64) : Outcome :=
  if !f.hasEpoch then
    if s.epochSeen then
      ⟨false, "boot epoch withdrawn by a peer that had signed one (rollback or pre-upgrade replay)",
        { s with epochDowngradeRejected := s.epochDowngradeRejected + 1 }⟩
    else
      match replayAdmit s.replay f.session f.counter with
      | (false, replay) => ⟨false, "", { s with replay := replay }⟩
      | (true, replay) =>
        ⟨true, "", { s with replay := replay, epochlessAdmitted := s.epochlessAdmitted + 1 }⟩
  else if !epochUsableAsFloor f.epoch then
    ⟨false, "boot epoch outside the plausible range (corrupt state file, or a peer "
        ++ "that is not a conforming #6169 build)",
      { s with epochOutOfBandRejected := s.epochOutOfBandRejected + 1 }⟩
  else if f.epoch < s.highEpoch then ⟨false, "", s⟩
  else if f.epoch = s.highEpoch && !epochSessionAdmissible s.highEpochSessions f.session then
    ⟨false, collisionReason, { s with epochSessionCollision := s.epochSessionCollision + 1 }⟩
  else if s.highEpoch < f.epoch && !epochWithinForwardBound f.epoch nowNanos then
    -- the clock does not vouch for the epoch: the frame is taken as one at the floor
    let s := { s with epochRaiseDeclinedAheadOfClock := s.epochRaiseDeclinedAheadOfClock + 1 }
    if s.highEpoch = 0 then
      ⟨false, "boot epoch more than bootEpochMaxSkew ahead of our clock "
          ++ "(check NTP on BOTH nodes — this is a clock fault, not a replay)", s⟩
    else if !epochSessionAdmissible s.highEpochSessions f.session then
      ⟨false, collisionReason, { s with epochSessionCollision := s.epochSessionCollision + 1 }⟩
    else admitEpoch s f true
  else admitEpoch s f false

/-! ## What a step does -/

/-- The ring takes a counter unless it remembers one of the session that is not smaller. -/
theorem admit_ok {a : HeartbeatAuthReplay} {session counter : UInt64} :
    (replayAdmit a session counter).1 = true ↔ ∀ mark, a.lookup session = some mark → mark < counter := by
  unfold replayAdmit
  split
  · rename_i mark h
    split_ifs with hlt
    · simp [h, hlt]
    · simp [h, hlt]
  · rename_i h
    simp [h]

theorem admit_refused {a : HeartbeatAuthReplay} {session counter : UInt64}
    (h : (replayAdmit a session counter).1 = false) : (replayAdmit a session counter).2 = a := by
  unfold replayAdmit at h ⊢
  split at h
  · split_ifs at h ⊢ with hlt
    rfl
  · cases h

/-- What the ring remembers after it has taken a counter. -/
theorem lookup_admit {a : HeartbeatAuthReplay} {session counter : UInt64}
    (h : (replayAdmit a session counter).1 = true) (k : UInt64) :
    (replayAdmit a session counter).2.lookup k
      = if k = session then some counter
        else if a.lookup session = none ∧ a.evicted = some k then none else a.lookup k := by
  unfold replayAdmit at h ⊢
  split at h
  · rename_i mark hmark
    split_ifs at h with hlt
    rw [if_pos hlt]
    dsimp only
    rw [FifoRing.lookup_update, hmark]
    by_cases hk : k = session
    · simp [hk]
    · simp [hk]
  · rename_i hnone
    dsimp only
    rw [FifoRing.lookup_insert]
    by_cases hk : k = session
    · simp [hk]
    · simp [hk, hnone]

/-- The clock does not vouch for an epoch above the floor. -/
def declines (g : EpochGate) (f : Frame) (nowNanos : Int64) : Bool :=
  g.highEpoch < f.epoch && !epochWithinForwardBound f.epoch nowNanos

/-- The frame may raise the floor. -/
def raises (g : EpochGate) (f : Frame) (nowNanos : Int64) : Bool :=
  g.highEpoch < f.epoch && epochWithinForwardBound f.epoch nowNanos

/-- The gates in front of the ring: the latch for a frame without an epoch; the plausible
band, the floor and the session budget for one with an epoch. -/
def passesGates (g : EpochGate) (f : Frame) (nowNanos : Int64) : Bool :=
  if f.hasEpoch then
    epochUsableAsFloor f.epoch &&
      (raises g f nowNanos
        || ((f.epoch = g.highEpoch || (declines g f nowNanos && g.highEpoch ≠ 0))
          && epochSessionAdmissible g.highEpochSessions f.session))
  else !g.epochSeen

/-- The gate once a frame has been admitted. -/
def gateAfter (g : EpochGate) (f : Frame) (nowNanos : Int64) : EpochGate :=
  let replay := (replayAdmit g.replay f.session f.counter).2
  if f.hasEpoch then
    { replay := replay
      highEpoch := if raises g f nowNanos then f.epoch else g.highEpoch
      highEpochSessions := bindEpochSession g.highEpochSessions f.session (raises g f nowNanos)
      epochSeen := g.epochSeen || !declines g f nowNanos }
  else { g with replay := replay }

theorem admitEpoch_spec (s : HeartbeatAuthState) (f : Frame) (declineRaise : Bool) :
    (admitEpoch s f declineRaise).ok = (replayAdmit s.replay f.session f.counter).1
      ∧ (admitEpoch s f declineRaise).state.toEpochGate
        = if (replayAdmit s.replay f.session f.counter).1 then
            { replay := (replayAdmit s.replay f.session f.counter).2
              highEpoch := if s.highEpoch < f.epoch && !declineRaise then f.epoch else s.highEpoch
              highEpochSessions :=
                bindEpochSession s.highEpochSessions f.session (s.highEpoch < f.epoch && !declineRaise)
              epochSeen := s.epochSeen || !declineRaise }
          else s.toEpochGate := by
  unfold admitEpoch
  split
  · rename_i replay h
    have hring := admit_refused (congrArg Prod.fst h)
    rw [h] at hring ⊢
    dsimp only at hring
    subst hring
    exact ⟨rfl, rfl⟩
  · rename_i replay h
    rw [h]
    exact ⟨rfl, rfl⟩

/-- A frame without an epoch. -/
theorem admitAuthed_epochless {s : HeartbeatAuthState} {f : Frame} (hepoch : f.hasEpoch = false)
    (nowNanos : Int64) :
    (admitAuthed s f nowNanos).ok = (!s.epochSeen && (replayAdmit s.replay f.session f.counter).1)
      ∧ (admitAuthed s f nowNanos).state.toEpochGate
        = if (admitAuthed s f nowNanos).ok then
            { s.toEpochGate with replay := (replayAdmit s.replay f.session f.counter).2 }
          else s.toEpochGate := by
  unfold admitAuthed
  simp only [hepoch, Bool.not_false, ↓reduceIte]
  by_cases hseen : s.epochSeen = true
  · rw [if_pos hseen, hseen]
    exact ⟨rfl, rfl⟩
  · have hunseen : (!s.epochSeen) = true := by simpa using hseen
    rw [if_neg hseen, hunseen, Bool.true_and]
    split
    · rename_i replay h
      have hring := admit_refused (congrArg Prod.fst h)
      rw [h] at hring ⊢
      dsimp only at hring
      subst hring
      exact ⟨rfl, rfl⟩
    · rename_i replay h
      rw [h]
      exact ⟨rfl, rfl⟩

/-- A frame with an epoch that fails at the gates. -/
theorem admitAuthed_refused {s : HeartbeatAuthState} {f : Frame} (hepoch : f.hasEpoch = true) {nowNanos : Int64}
    (h : passesGates s.toEpochGate f nowNanos = false) :
    (admitAuthed s f nowNanos).ok = false ∧ (admitAuthed s f nowNanos).state.toEpochGate = s.toEpochGate := by
  unfold passesGates raises declines at h
  rw [if_pos hepoch] at h
  unfold admitAuthed
  rw [if_neg (by rw [hepoch]; decide)]
  by_cases husable : epochUsableAsFloor f.epoch = true
  · rw [if_neg (by rw [husable]; decide)]
    by_cases hbelow : f.epoch < s.highEpoch
    · rw [if_pos hbelow]
      exact ⟨rfl, rfl⟩
    rw [if_neg hbelow]
    split_ifs with hat hdecl
    · exact ⟨rfl, rfl⟩
    · dsimp only
      split_ifs with hzero hadm
      · exact ⟨rfl, rfl⟩
      · exact ⟨rfl, rfl⟩
      · simp_all
    · have hle : s.highEpoch ≤ f.epoch := UInt64.not_lt.mp hbelow
      have hsplit : f.epoch = s.highEpoch ∨ s.highEpoch < f.epoch := by grind
      rcases hsplit with heq | habove
      · simp_all
      · simp_all
  · rw [if_pos (by simpa using husable)]
    exact ⟨rfl, rfl⟩

/-- A frame with an epoch that passes the gates comes before the ring. -/
theorem admitAuthed_passes {s : HeartbeatAuthState} {f : Frame} (hepoch : f.hasEpoch = true) {nowNanos : Int64}
    (h : passesGates s.toEpochGate f nowNanos = true) :
    ∃ t : HeartbeatAuthState, t.toEpochGate = s.toEpochGate
      ∧ admitAuthed s f nowNanos = admitEpoch t f (declines s.toEpochGate f nowNanos) := by
  unfold passesGates raises at h
  rw [if_pos hepoch, Bool.and_eq_true] at h
  obtain ⟨husable, h⟩ := h
  unfold admitAuthed
  rw [if_neg (by rw [hepoch]; decide), if_neg (by rw [husable]; decide)]
  rw [Bool.or_eq_true, Bool.and_eq_true, Bool.and_eq_true, Bool.or_eq_true, Bool.and_eq_true] at h
  rcases h with ⟨habove, hwithin⟩ | ⟨hat | ⟨hdecl, hzero⟩, hadm⟩
  · have habove := of_decide_eq_true habove
    have hbelow : ¬ f.epoch < s.highEpoch := UInt64.lt_asymm habove
    have hat : f.epoch ≠ s.highEpoch := (UInt64.ne_of_lt habove).symm
    have hnot : declines s.toEpochGate f nowNanos = false := by
      rw [declines, hwithin, Bool.not_true, Bool.and_false]
    refine ⟨s, rfl, ?_⟩
    rw [if_neg hbelow, if_neg (by simp [hat]), if_neg (by simp [hwithin]), hnot]
  · have hat := of_decide_eq_true hat
    have hnlt : ¬ s.highEpoch < f.epoch := hat ▸ UInt64.lt_irrefl _
    have hbelow : ¬ f.epoch < s.highEpoch := hat ▸ UInt64.lt_irrefl _
    have hnot : declines s.toEpochGate f nowNanos = false := by simp [declines, hnlt]
    refine ⟨s, rfl, ?_⟩
    rw [if_neg hbelow, if_neg (by simp [hadm]), if_neg (by simp [hnlt]), hnot]
  · have habove : s.highEpoch < f.epoch := by
      rw [declines, Bool.and_eq_true] at hdecl
      exact of_decide_eq_true hdecl.1
    have hbelow : ¬ f.epoch < s.highEpoch := UInt64.lt_asymm habove
    have hat : f.epoch ≠ s.highEpoch := (UInt64.ne_of_lt habove).symm
    refine ⟨{ s with epochRaiseDeclinedAheadOfClock := s.epochRaiseDeclinedAheadOfClock + 1 }, rfl, ?_⟩
    rw [hdecl, if_neg hbelow, if_neg (by simp [hat])]
    unfold declines at hdecl
    rw [if_pos hdecl]
    dsimp only
    rw [if_neg (of_decide_eq_true hzero), if_neg (by rw [hadm]; decide)]

/-- **One step**: a frame is admitted if it passes the gates and the ring takes its
counter, and it changes the gate only if it is admitted. -/
theorem admitAuthed_spec (s : HeartbeatAuthState) (f : Frame) (nowNanos : Int64) :
    (admitAuthed s f nowNanos).ok
        = (passesGates s.toEpochGate f nowNanos && (replayAdmit s.replay f.session f.counter).1)
      ∧ (admitAuthed s f nowNanos).state.toEpochGate
        = if (admitAuthed s f nowNanos).ok then gateAfter s.toEpochGate f nowNanos else s.toEpochGate := by
  cases hepoch : f.hasEpoch with
  | false =>
    unfold passesGates gateAfter
    rw [hepoch]
    exact admitAuthed_epochless hepoch nowNanos
  | true =>
    cases hpass : passesGates s.toEpochGate f nowNanos with
    | false =>
      obtain ⟨hok, hgate⟩ := admitAuthed_refused hepoch hpass
      rw [hok, hgate]
      exact ⟨rfl, rfl⟩
    | true =>
      obtain ⟨t, ht, heq⟩ := admitAuthed_passes hepoch hpass
      obtain ⟨hok, hgate⟩ := admitEpoch_spec t f (declines s.toEpochGate f nowNanos)
      rw [heq, hok, hgate, Bool.true_and]
      refine ⟨by rw [ht], ?_⟩
      unfold gateAfter
      have hraise : (s.highEpoch < f.epoch && !declines s.toEpochGate f nowNanos)
          = raises s.toEpochGate f nowNanos := by
        unfold declines raises
        cases decide (s.highEpoch < f.epoch) <;> simp
      rw [if_pos hepoch, ht, ← hraise]

/-! ## Runs -/

/-- A frame, and the local clock when it comes in. -/
abbrev Input := Frame × Int64

/-- A frame that was admitted, and the floor it left. -/
structure Admission where
  frame : Frame
  floor : UInt64
deriving DecidableEq

/-- A state, and what was admitted on the way to it. -/
structure History where
  state : HeartbeatAuthState
  admitted : List Admission

def History.step (h : History) (i : Input) : History :=
  let o := admitAuthed h.state i.1 i.2
  { state := o.state
    admitted := if o.ok then h.admitted ++ [⟨i.1, o.state.highEpoch⟩] else h.admitted }

/-- The history of a manager that has processed the inputs. -/
def history (inputs : List Input) : History := Runs.run History.step ⟨emptyState, []⟩ inputs

theorem history_snoc (inputs : List Input) (i : Input) : history (inputs ++ [i]) = (history inputs).step i :=
  Runs.run_snoc inputs i

/-! ## The floor -/

/-- A frame that is admitted: what it passed, and the gate it leaves. -/
theorem of_admitted {s : HeartbeatAuthState} {f : Frame} {nowNanos : Int64} (h : (admitAuthed s f nowNanos).ok = true) :
    passesGates s.toEpochGate f nowNanos = true ∧ (replayAdmit s.replay f.session f.counter).1 = true
      ∧ (admitAuthed s f nowNanos).state.toEpochGate = gateAfter s.toEpochGate f nowNanos := by
  obtain ⟨hok, hgate⟩ := admitAuthed_spec s f nowNanos
  rw [h] at hok hgate
  obtain ⟨hpass, hring⟩ := Bool.and_eq_true_iff.mp hok.symm
  exact ⟨hpass, hring, hgate⟩

/-- A frame that is refused leaves the gate as it is. -/
theorem of_refused {s : HeartbeatAuthState} {f : Frame} {nowNanos : Int64} (h : (admitAuthed s f nowNanos).ok = false) :
    (admitAuthed s f nowNanos).state.toEpochGate = s.toEpochGate := by
  have hgate := (admitAuthed_spec s f nowNanos).2
  rw [h] at hgate
  exact hgate

/-- Binding a session without a reset keeps the sessions that are bound, and adds nothing
but the session. -/
theorem mem_bindEpochSession {s : EpochSessions} {session k : UInt64}
    (hadm : epochSessionAdmissible s session = true) :
    k ∈ (bindEpochSession s session false).bound ↔ k = session ∨ k ∈ s.bound := by
  unfold epochSessionAdmissible at hadm
  unfold bindEpochSession
  rw [if_neg Bool.false_ne_true]
  split_ifs with hmem hfree
  · have hmem : session ∈ s.bound := by simpa using hmem
    constructor
    · exact Or.inr
    · rintro (rfl | h)
      · exact hmem
      · exact h
  · rw [List.mem_append, List.mem_singleton, or_comm]
  · simp only [Bool.not_eq_true] at hmem
    rw [hmem, Bool.false_or] at hadm
    exact absurd (of_decide_eq_true hadm) hfree

/-- A frame with an epoch that passes the gates and does not raise the floor has a session
the budget admits, and comes after the floor was set. -/
theorem of_passesGates {g : EpochGate} {f : Frame} {nowNanos : Int64} (hepoch : f.hasEpoch = true)
    (h : passesGates g f nowNanos = true) :
    epochUsableAsFloor f.epoch = true
      ∧ (raises g f nowNanos = true
        ∨ raises g f nowNanos = false ∧ g.highEpoch ≤ f.epoch ∧ g.highEpoch ≠ 0
          ∧ epochSessionAdmissible g.highEpochSessions f.session = true
          ∧ (f.epoch = g.highEpoch ∧ declines g f nowNanos = false ∨ declines g f nowNanos = true)) := by
  unfold passesGates at h
  rw [if_pos hepoch, Bool.and_eq_true] at h
  obtain ⟨husable, h⟩ := h
  refine ⟨husable, ?_⟩
  rw [Bool.or_eq_true, Bool.and_eq_true, Bool.or_eq_true, Bool.and_eq_true] at h
  rcases h with hraise | ⟨hat | ⟨hdecl, hzero⟩, hadm⟩
  · exact Or.inl hraise
  · have hat : f.epoch = g.highEpoch := of_decide_eq_true hat
    have hirrefl : ¬ g.highEpoch < g.highEpoch := UInt64.lt_irrefl _
    have hzero : f.epoch ≠ 0 := by
      unfold epochUsableAsFloor at husable
      have hpos : 0 < f.epoch := of_decide_eq_true (Bool.and_eq_true_iff.mp husable).1
      exact (UInt64.ne_of_lt hpos).symm
    exact Or.inr ⟨by simp [raises, hat], hat ▸ UInt64.le_refl _, hat ▸ hzero, hadm,
      Or.inl ⟨hat, by simp [declines, hat]⟩⟩
  · have hdecl' := hdecl
    unfold declines at hdecl'
    obtain ⟨hlt, hout⟩ := Bool.and_eq_true_iff.mp hdecl'
    have hnot : raises g f nowNanos = false := by
      unfold raises
      rw [show epochWithinForwardBound f.epoch nowNanos = false by simpa using hout, Bool.and_false]
    exact Or.inr ⟨hnot, UInt64.le_of_lt (of_decide_eq_true hlt), of_decide_eq_true hzero, hadm, Or.inr hdecl⟩

/-- **What an admission can be**: a frame without an epoch before the latch is set, a
raise of the floor, or a frame of an admissible session at the floor (or above it, when
the clock does not vouch for the epoch). -/
theorem admitted_cases {s : HeartbeatAuthState} {f : Frame} {nowNanos : Int64}
    (h : (admitAuthed s f nowNanos).ok = true) :
    (f.hasEpoch = false ∧ s.epochSeen = false
      ∧ (admitAuthed s f nowNanos).state.toEpochGate
        = { s.toEpochGate with replay := (replayAdmit s.replay f.session f.counter).2 })
    ∨ (f.hasEpoch = true ∧ epochUsableAsFloor f.epoch = true ∧ s.highEpoch < f.epoch
      ∧ (admitAuthed s f nowNanos).state.toEpochGate
        = ⟨(replayAdmit s.replay f.session f.counter).2, f.epoch, bindEpochSession s.highEpochSessions f.session true, true⟩)
    ∨ (f.hasEpoch = true ∧ epochUsableAsFloor f.epoch = true ∧ s.highEpoch ≤ f.epoch ∧ s.highEpoch ≠ 0
      ∧ epochSessionAdmissible s.highEpochSessions f.session = true
      ∧ ∃ epochSeen, (s.epochSeen = true → epochSeen = true)
        ∧ (admitAuthed s f nowNanos).state.toEpochGate
          = ⟨(replayAdmit s.replay f.session f.counter).2, s.highEpoch,
            bindEpochSession s.highEpochSessions f.session false, epochSeen⟩) := by
  obtain ⟨hpass, -, hgate⟩ := of_admitted h
  rw [hgate]
  unfold gateAfter
  by_cases hepoch : f.hasEpoch = true
  · right
    rw [if_pos hepoch]
    obtain ⟨husable, hraise | ⟨hraise, hle, hzero, hadm, -⟩⟩ := of_passesGates hepoch hpass
    · left
      have hlt : s.highEpoch < f.epoch ∧ epochWithinForwardBound f.epoch nowNanos = true := by
        unfold raises at hraise
        obtain ⟨hlt, hwithin⟩ := Bool.and_eq_true_iff.mp hraise
        exact ⟨of_decide_eq_true hlt, hwithin⟩
      have hdecl : declines s.toEpochGate f nowNanos = false := by
        unfold declines
        rw [hlt.2, Bool.not_true, Bool.and_false]
      refine ⟨hepoch, husable, hlt.1, ?_⟩
      rw [if_pos hraise, hraise, hdecl, Bool.not_false, Bool.or_true]
    · right
      refine ⟨hepoch, husable, hle, hzero, hadm, s.epochSeen || !declines s.toEpochGate f nowNanos, ?_, ?_⟩
      · intro hseen
        rw [hseen, Bool.true_or]
      · rw [if_neg (by rw [hraise]; decide), hraise]
  · left
    unfold passesGates at hpass
    rw [if_neg hepoch] at hpass ⊢
    exact ⟨Bool.eq_false_of_not_eq_true hepoch, by simpa using hpass, rfl⟩

/-- No step lowers the floor. -/
theorem highEpoch_le_step (s : HeartbeatAuthState) (f : Frame) (nowNanos : Int64) :
    s.highEpoch ≤ (admitAuthed s f nowNanos).state.highEpoch := by
  by_cases hok : (admitAuthed s f nowNanos).ok = true
  · rcases admitted_cases hok with ⟨-, -, hgate⟩ | ⟨-, -, hlt, hgate⟩ | ⟨-, -, -, -, -, _, -, hgate⟩
    · rw [hgate]
      exact UInt64.le_refl _
    · rw [hgate]
      exact UInt64.le_of_lt hlt
    · rw [hgate]
      exact UInt64.le_refl _
  · rw [of_refused (Bool.eq_false_of_not_eq_true hok)]
    exact UInt64.le_refl _

/-- The sessions admitted while the floor had a value. -/
def History.sessionsAt (h : History) (floor : UInt64) : Finset UInt64 :=
  ((h.admitted.filter (·.floor = floor)).map (·.frame.session)).toFinset

theorem History.mem_sessionsAt {h : History} {floor session : UInt64} :
    session ∈ h.sessionsAt floor ↔ ∃ a ∈ h.admitted, a.floor = floor ∧ a.frame.session = session := by
  simp [History.sessionsAt, and_assoc]

/-- What holds along every run: the latch is set once a frame with an epoch has been
admitted, or the floor raised; floors left by admissions are not above the present one;
and the sessions admitted at the present floor are bound. -/
structure History.Inv (h : History) : Prop where
  latched : ∀ a ∈ h.admitted, a.frame.hasEpoch = true → h.state.epochSeen = true
  floorLatched : h.state.highEpoch ≠ 0 → h.state.epochSeen = true
  floorLe : ∀ a ∈ h.admitted, a.floor ≤ h.state.highEpoch
  bound : ∀ a ∈ h.admitted, a.floor = h.state.highEpoch → a.floor ≠ 0 →
    a.frame.session ∈ h.state.highEpochSessions.bound

theorem inv_start : History.Inv ⟨emptyState, []⟩ where
  latched := by simp
  floorLatched := fun h => absurd rfl h
  floorLe := by simp
  bound := by simp

/-- What an admission does to the latch and the bound sessions, in a state of a run. -/
theorem History.Inv.admitted {h : History} (hinv : h.Inv) {f : Frame} {nowNanos : Int64}
    (hok : (admitAuthed h.state f nowNanos).ok = true) :
    (h.state.epochSeen = true ∨ f.hasEpoch = true → (admitAuthed h.state f nowNanos).state.epochSeen = true)
      ∧ ((admitAuthed h.state f nowNanos).state.highEpoch ≠ 0 →
        (admitAuthed h.state f nowNanos).state.epochSeen = true
          ∧ f.session ∈ (admitAuthed h.state f nowNanos).state.highEpochSessions.bound)
      ∧ ((admitAuthed h.state f nowNanos).state.highEpoch = h.state.highEpoch →
        h.state.highEpochSessions.bound ⊆ (admitAuthed h.state f nowNanos).state.highEpochSessions.bound) := by
  rcases admitted_cases hok with ⟨hepoch, hseen, hgate⟩ | ⟨-, -, hlt, hgate⟩ |
    ⟨-, -, -, hzero, hadm, epochSeen, hkeep, hgate⟩
  · -- without an epoch, before the latch: there is no floor yet
    rw [hgate, hseen, hepoch]
    refine ⟨by simp, fun hfloor => ?_, fun _ => List.Subset.refl _⟩
    have hlatched := hinv.floorLatched hfloor
    rw [hseen] at hlatched
    cases hlatched
  · rw [hgate]
    refine ⟨fun _ => rfl, fun _ => ⟨rfl, List.mem_singleton_self _⟩, fun heq => ?_⟩
    dsimp only at heq
    exact absurd heq (UInt64.ne_of_lt hlt).symm
  · have hlatched := hkeep (hinv.floorLatched hzero)
    rw [hgate, hlatched]
    exact ⟨fun _ => rfl, fun _ => ⟨rfl, (mem_bindEpochSession hadm).mpr (Or.inl rfl)⟩,
      fun _ k hk => (mem_bindEpochSession hadm).mpr (Or.inr hk)⟩

theorem History.Inv.step {h : History} (hinv : h.Inv) (i : Input) : (h.step i).Inv := by
  obtain ⟨f, nowNanos⟩ := i
  unfold History.step
  dsimp only
  cases hok : (admitAuthed h.state f nowNanos).ok with
  | false =>
    have hgate := of_refused hok
    rw [if_neg Bool.false_ne_true]
    constructor
    · rw [hgate]
      exact hinv.latched
    · rw [hgate]
      exact hinv.floorLatched
    · rw [hgate]
      exact hinv.floorLe
    · rw [hgate]
      exact hinv.bound
  | true =>
    have hmono := highEpoch_le_step h.state f nowNanos
    obtain ⟨hlatch, hfloor, hkeep⟩ := hinv.admitted hok
    rw [if_pos rfl]
    constructor
    · intro a ha hepoch
      rcases List.mem_append.mp ha with ha | ha
      · exact hlatch (Or.inl (hinv.latched a ha hepoch))
      · rw [List.mem_singleton.mp ha] at hepoch
        exact hlatch (Or.inr hepoch)
    · exact fun hne => (hfloor hne).1
    · intro a ha
      rcases List.mem_append.mp ha with ha | ha
      · exact UInt64.le_trans (hinv.floorLe a ha) hmono
      · rw [List.mem_singleton.mp ha]
        exact UInt64.le_refl _
    · intro a ha heq hne
      dsimp only at heq
      rcases List.mem_append.mp ha with ha | ha
      · -- an earlier admission at the floor of now: the floor has not moved since
        have hsame : (admitAuthed h.state f nowNanos).state.highEpoch = h.state.highEpoch :=
          UInt64.le_antisymm (heq ▸ hinv.floorLe a ha) hmono
        exact hkeep hsame (hinv.bound a ha (heq.trans hsame) hne)
      · rw [List.mem_singleton.mp ha] at hne ⊢
        exact (hfloor hne).2

theorem history_inv (inputs : List Input) : (history inputs).Inv :=
  Runs.run_invariant inv_start (fun _ i hinv => hinv.step i) inputs

/-- At one value of the floor, once there is one, two sessions are admitted at most. -/
theorem card_sessionsAt_le (inputs : List Input) {floor : UInt64} (hfloor : floor ≠ 0) :
    ((history inputs).sessionsAt floor).card ≤ heartbeatEpochSessionsPerEpoch := by
  induction inputs using List.reverseRecOn with
  | nil => exact Nat.zero_le _
  | append_singleton before i ih =>
    have hinv := history_inv (before ++ [i])
    by_cases hnow : floor = (history (before ++ [i])).state.highEpoch
    · have hsub : (history (before ++ [i])).sessionsAt floor
          ⊆ (history (before ++ [i])).state.highEpochSessions.bound.toFinset := by
        intro session hs
        obtain ⟨a, ha, hat, rfl⟩ := History.mem_sessionsAt.mp hs
        exact List.mem_toFinset.mpr (hinv.bound a ha (hat.trans hnow) (hat ▸ hfloor))
      calc ((history (before ++ [i])).sessionsAt floor).card
          ≤ _ := Finset.card_le_card hsub
        _ ≤ _ := List.toFinset_card_le _
        _ ≤ _ := (history (before ++ [i])).state.highEpochSessions.withinBudget
    · -- the step has left another floor, so nothing is added at this one
      refine (Finset.card_le_card ?_).trans ih
      intro session hs
      obtain ⟨a, ha, hat, rfl⟩ := History.mem_sessionsAt.mp hs
      refine History.mem_sessionsAt.mpr ⟨a, ?_, hat, rfl⟩
      rw [history_snoc] at ha hnow
      unfold History.step at ha hnow
      dsimp only at ha hnow
      split_ifs at ha
      · rcases List.mem_append.mp ha with ha | ha
        · exact ha
        · rw [List.mem_singleton.mp ha] at hat
          exact absurd hat.symm hnow
      · exact ha

/-- **The discipline of the floor**, for every sequence of frames and clock readings: it
never goes down; a frame that is refused changes nothing of the gate; once a frame with an
epoch has been admitted no frame without one is; no frame below the floor is admitted; and
at one value of the floor two sessions are admitted at most. -/
theorem epochFloor_discipline (inputs : List Input) :
    (∀ later, (history inputs).state.highEpoch ≤ (history (inputs ++ later)).state.highEpoch)
    ∧ (∀ f nowNanos, (admitAuthed (history inputs).state f nowNanos).ok = false →
      (admitAuthed (history inputs).state f nowNanos).state.toEpochGate = (history inputs).state.toEpochGate)
    ∧ (∀ f nowNanos, f.hasEpoch = false → (∃ a ∈ (history inputs).admitted, a.frame.hasEpoch = true) →
      (admitAuthed (history inputs).state f nowNanos).ok = false)
    ∧ (∀ f nowNanos, f.hasEpoch = true → f.epoch < (history inputs).state.highEpoch →
      (admitAuthed (history inputs).state f nowNanos).ok = false)
    ∧ (∀ floor, floor ≠ 0 → ((history inputs).sessionsAt floor).card ≤ 2) := by
  refine ⟨?_, ?_, ?_, ?_, ?_⟩
  · intro later
    unfold history
    rw [Runs.run_append, UInt64.le_iff_toNat_le]
    exact Runs.run_mono (q := fun h : History => h.state.highEpoch.toNat)
      (fun h i => UInt64.le_iff_toNat_le.mp (highEpoch_le_step h.state i.1 i.2)) later
  · intro f nowNanos hok
    exact of_refused hok
  · rintro f nowNanos hepoch ⟨a, ha, hsigned⟩
    have hseen := (history_inv inputs).latched a ha hsigned
    rw [(admitAuthed_epochless hepoch nowNanos).1, hseen]
    rfl
  · intro f nowNanos hepoch hbelow
    by_contra hok
    rcases admitted_cases (by simpa using hok) with ⟨hnone, -⟩ | ⟨-, -, hlt, -⟩ | ⟨-, -, hle, -⟩
    · rw [hepoch] at hnone
      cases hnone
    · exact UInt64.lt_asymm hbelow hlt
    · exact UInt64.not_lt.mpr hle hbelow
  · intro floor hfloor
    exact card_sessionsAt_le inputs hfloor

/-- A frame of the upgraded peer, at a 2026 epoch. -/
def signedFrame : Frame := ⟨true, 1790000000000000000, 7, 1⟩

/-- A peer that has signed one epoch cannot withdraw it. -/
theorem epochFloor_discipline_signed :
    (admitAuthed (history [(signedFrame, 1790000000000000000)]).state ⟨false, 0, 8, 1⟩ 1790000000000000000).ok
      = false :=
  (epochFloor_discipline [(signedFrame, 1790000000000000000)]).2.2.1 ⟨false, 0, 8, 1⟩ 1790000000000000000 rfl
    ⟨⟨signedFrame, 1790000000000000000⟩, by decide +kernel, rfl⟩

/-- Before the peer has signed an epoch there is no floor, and no bound on its sessions:
three frames without an epoch, three sessions, and the floor is at zero throughout. -/
theorem sessionsAt_zero :
    ((history [(⟨false, 0, 1, 1⟩, 0), (⟨false, 0, 2, 1⟩, 0), (⟨false, 0, 3, 1⟩, 0)]).sessionsAt 0).card = 3 := by
  decide +kernel

end Xpf.HeartbeatAuth
