/-
The hints of the timer wheel and the sessions they are queued for.

A session is taken off the table when the wheel comes to a hint that carries its tick, and
what is taken off is the session stored under the key the hint names. A key can also lead to a
session that is stored under another one: to a reverse session whose translation it is. Where
such a key gets a hint, the hint speaks for a session it cannot remove.

The first part says what one operation can do to the hints: every session that is still there
is the same flow, and its tick is the old one with its hint still queued, or a new one that is
not in the past with its hint queued (`Paced`). All operations but two are of this kind;
storing a session and rewriting one in place bring a flow the table did not have.
-/
import Xpf.SessionIndexes

set_option autoImplicit false

namespace Xpf.Sessions

open Xpf.Handles

namespace Table

variable {t t' t'' : Table}

/-! ## Aliases -/

/-- A reverse session answers to its translation. -/
def AliasOf (r : SessionRecord) (key : SessionKey) : Prop :=
  r.entry.metadata.isReverse = true ∧ r.key ≠ key ∧ translatedSessionKey r.key r.entry.decision.nat = key

/-- A key is the alias of a session stored under another key. -/
def Aliased (t : Table) (key : SessionKey) : Prop := ∃ h r, t.entries.get h = some r ∧ AliasOf r key

instance (r : SessionRecord) (key : SessionKey) : Decidable (AliasOf r key) := inferInstanceAs (Decidable (_ ∧ _ ∧ _))

theorem aliased_iff {key : SessionKey} :
    (t.entries.slots.any fun o => o.any fun r => decide (AliasOf r key)) = true ↔ t.Aliased key := by
  simp only [List.any_eq_true, Option.any_eq_true, decide_eq_true_eq]
  constructor
  · rintro ⟨_, hmem, r, rfl, ha⟩
    obtain ⟨h, hr⟩ := Slab.exists_get_iff.mpr hmem
    exact ⟨h, r, hr, ha⟩
  · rintro ⟨h, r, hr, ha⟩
    exact ⟨some r, Slab.exists_get_iff.mp ⟨h, hr⟩, r, rfl, ha⟩

instance (t : Table) (key : SessionKey) : Decidable (t.Aliased key) := decidable_of_iff _ aliased_iff

/-- What a key that is no alias leads to is stored under it. -/
theorem key_of_not_aliased {key : SessionKey} {h : ℕ} {r : SessionRecord} (hclear : ¬t.Aliased key)
    (hr : t.recordByKey key = some (h, r)) : r.key = key := by
  by_contra hne
  obtain ⟨hg, hor⟩ := recordByKey_spec hr
  obtain ⟨hrev, halias⟩ := hor.resolve_left hne
  exact hclear ⟨h, r, hg, hrev, hne, halias⟩

/-! ## Hints -/

/-- A hint stands in the bucket of its tick. -/
def Queued (t : Table) (hint : WheelEntry) : Prop := hint ∈ t.wheel.buckets (bucketForTick hint.scheduledTick)

/-- A held session is rechecked at its tick. -/
def Tidy (e : SessionEntry) : Prop := e.heldWheelTick = 0 ∨ e.heldWheelTick = e.wheelTick

/-- The session has a hint that is not stale. -/
def Hinted (t : Table) (r : SessionRecord) : Prop := t.Queued ⟨r.key, r.entry.wheelTick⟩ ∧ Tidy r.entry

theorem Tidy.not_stale {e : SessionEntry} (htidy : Tidy e) : ¬StaleHint e e.wheelTick := by
  rintro (hne | ⟨hheld, hne⟩)
  · exact hne rfl
  · exact htidy.elim hheld hne

/-- Two records of one flow. -/
structure SameFlow (r r' : SessionRecord) : Prop where
  key : r'.key = r.key
  nat : r'.entry.decision.nat = r.entry.decision.nat
  isReverse : r'.entry.metadata.isReverse = r.entry.metadata.isReverse

theorem SameFlow.refl (r : SessionRecord) : SameFlow r r := ⟨rfl, rfl, rfl⟩

theorem SameFlow.trans {r r' r'' : SessionRecord} (h : SameFlow r r') (h' : SameFlow r' r'') : SameFlow r r'' :=
  ⟨h'.key.trans h.key, h'.nat.trans h.nat, h'.isReverse.trans h.isReverse⟩

theorem SameFlow.aliasOf {r r' : SessionRecord} (h : SameFlow r r') {key : SessionKey} (ha : AliasOf r' key) :
    AliasOf r key := by
  obtain ⟨hrev, hne, halias⟩ := ha
  rw [h.isReverse] at hrev
  rw [h.key] at hne halias
  rw [h.nat] at halias
  exact ⟨hrev, hne, halias⟩

/-- The tick and the hint of a session after an operation at `nowNs`. -/
def OnPace (nowNs : ℕ) (t t' : Table) (r r' : SessionRecord) : Prop :=
  (r'.entry.wheelTick = r.entry.wheelTick ∧ (t.Hinted r → t'.Hinted r'))
    ∨ (nowNs / wheelTickNs ≤ r'.entry.wheelTick ∧ t'.Hinted r')

/-- What an operation at `nowNs` that brings no new flow does to the sessions and the hints. -/
structure Paced (nowNs : ℕ) (t t' : Table) : Prop where
  session : ∀ h r', t'.entries.get h = some r' → ∃ r, t.entries.get h = some r ∧ SameFlow r r' ∧ OnPace nowNs t t' r r'
  hint : ∀ b w, w ∈ t'.wheel.buckets b → w ∈ t.wheel.buckets b ∨ ¬t'.Aliased w.key

namespace Paced

variable {nowNs : ℕ}

/-- No key becomes an alias. -/
theorem aliased (h : Paced nowNs t t') {key : SessionKey} (ha : t'.Aliased key) : t.Aliased key := by
  obtain ⟨n, r', hr', ha⟩ := ha
  obtain ⟨r, hr, hflow, -⟩ := h.session n r' hr'
  exact ⟨n, r, hr, hflow.aliasOf ha⟩

theorem not_aliased (h : Paced nowNs t t') {key : SessionKey} (ha : ¬t.Aliased key) : ¬t'.Aliased key :=
  fun ha' => ha (h.aliased ha')

/-- A table that differs in neither sessions nor wheel. -/
theorem of_eq (hentries : t'.entries = t.entries) (hwheel : t'.wheel = t.wheel) : Paced nowNs t t' where
  session := by
    intro h r hr
    rw [hentries] at hr
    refine ⟨r, hr, .refl r, Or.inl ⟨rfl, fun hh => ?_⟩⟩
    rw [Hinted, Queued, hwheel]
    exact hh
  hint := by
    intro b w hw
    rw [hwheel] at hw
    exact Or.inl hw

theorem refl (nowNs : ℕ) (t : Table) : Paced nowNs t t := of_eq rfl rfl

theorem trans (h : Paced nowNs t t') (h' : Paced nowNs t' t'') : Paced nowNs t t'' where
  session := by
    intro n r'' hr''
    obtain ⟨r', hr', hflow', hpace'⟩ := h'.session n r'' hr''
    obtain ⟨r, hr, hflow, hpace⟩ := h.session n r' hr'
    refine ⟨r, hr, hflow.trans hflow', ?_⟩
    rcases hpace' with ⟨htick', hhint'⟩ | hplaced'
    · rcases hpace with ⟨htick, hhint⟩ | ⟨hle, hhint⟩
      · exact Or.inl ⟨htick'.trans htick, fun hh => hhint' (hhint hh)⟩
      · exact Or.inr ⟨htick' ▸ hle, hhint' hhint⟩
    · exact Or.inr hplaced'
  hint := by
    intro b w hw
    rcases h'.hint b w hw with hw' | hclear
    · exact (h.hint b w hw').imp_right h'.not_aliased
    · exact Or.inr hclear

end Paced

/-- Every session has a hint that is not stale, and no hint names an alias. -/
structure Effective (t : Table) : Prop where
  hinted : ∀ h r, t.entries.get h = some r → t.Hinted r
  apart : ∀ b w, w ∈ t.wheel.buckets b → ¬t.Aliased w.key

theorem Effective.paced {nowNs : ℕ} (he : t.Effective) (hp : Paced nowNs t t') : t'.Effective where
  hinted := by
    intro n r' hr'
    obtain ⟨r, hr, -, hpace⟩ := hp.session n r' hr'
    rcases hpace with ⟨-, hhint⟩ | ⟨-, hhint⟩
    · exact hhint (he.hinted n r hr)
    · exact hhint
  apart := by
    intro b w hw
    rcases hp.hint b w hw with hw' | hclear
    · exact hp.not_aliased (he.apart b w hw')
    · exact hclear

/-- Sessions and hints are all it is about. -/
theorem Effective.of_eq (he : t.Effective) (hentries : t'.entries = t.entries) (hwheel : t'.wheel = t.wheel) :
    t'.Effective :=
  have hp : Paced 0 t t' := .of_eq hentries hwheel
  he.paced hp

/-- The key of a session is no alias: it has a hint. -/
theorem Effective.not_aliased (he : t.Effective) {h : ℕ} {r : SessionRecord} (hr : t.entries.get h = some r) :
    ¬t.Aliased r.key := he.apart _ _ (he.hinted h r hr).1

/-! ## Rewriting and scheduling a session -/

section

variable {nowNs : ℕ} {h : ℕ} {key : SessionKey} {r : SessionRecord}

@[simp] theorem buckets_observe (w : SessionWheel) (nowNs : ℕ) : (w.observe nowNs).buckets = w.buckets := by
  unfold SessionWheel.observe
  split_ifs <;> rfl

theorem mem_buckets_push {w : SessionWheel} {hint hint' : WheelEntry} {b : ℕ} :
    hint' ∈ (w.push hint).buckets b ↔
      hint' ∈ w.buckets b ∨ (b = bucketForTick hint.scheduledTick ∧ hint' = hint) := by
  simp only [SessionWheel.push]
  by_cases hb : b = bucketForTick hint.scheduledTick
  · subst hb
    simp
  · simp [hb]

/-- The rewriting leaves flow and tick alone. -/
def KeepsHint (f : SessionEntry → SessionEntry) : Prop :=
  ∀ e, (f e).decision.nat = e.decision.nat ∧ (f e).metadata.isReverse = e.metadata.isReverse
    ∧ (f e).wheelTick = e.wheelTick ∧ (f e).heldWheelTick = e.heldWheelTick

theorem paced_updateEntry_of (nowNs : ℕ) (t : Table) (h : ℕ) {f : SessionEntry → SessionEntry}
    (hf : ∀ r, t.entries.get h = some r → SameFlow r { r with entry := f r.entry }
      ∧ (f r.entry).wheelTick = r.entry.wheelTick ∧ (Tidy r.entry → Tidy (f r.entry))) :
    Paced nowNs t (t.updateEntry h f) where
  session := by
    intro n r' hr'
    change (t.entries.update h _).get n = some r' at hr'
    rw [Slab.get_update] at hr'
    split at hr'
    · next heq =>
      obtain ⟨r, hr, rfl⟩ := Option.map_eq_some_iff.mp hr'
      obtain ⟨hflow, htick, htidy⟩ := hf r hr
      refine ⟨r, heq ▸ hr, hflow, Or.inl ⟨htick, fun hh => ⟨?_, htidy hh.2⟩⟩⟩
      show WheelEntry.mk r.key (f r.entry).wheelTick ∈ t.wheel.buckets (bucketForTick (f r.entry).wheelTick)
      rw [htick]
      exact hh.1
    · exact ⟨r', hr', .refl r', Or.inl ⟨rfl, id⟩⟩
  hint := fun b w hw => Or.inl hw

theorem KeepsHint.at {f : SessionEntry → SessionEntry} (hf : KeepsHint f) (r : SessionRecord) :
    SameFlow r { r with entry := f r.entry } ∧ (f r.entry).wheelTick = r.entry.wheelTick
      ∧ (Tidy r.entry → Tidy (f r.entry)) := by
  obtain ⟨hnat, hrev, htick, hheld⟩ := hf r.entry
  refine ⟨⟨rfl, hnat, hrev⟩, htick, fun htidy => ?_⟩
  rw [Tidy, htick, hheld]
  exact htidy

theorem paced_updateEntry (nowNs : ℕ) (t : Table) (h : ℕ) {f : SessionEntry → SessionEntry} (hf : KeepsHint f) :
    Paced nowNs t (t.updateEntry h f) := paced_updateEntry_of nowNs t h fun r _ => hf.at r

theorem paced_updateByKey (nowNs : ℕ) (t : Table) (key : SessionKey) {f : SessionEntry → SessionEntry} (hf : KeepsHint f) :
    Paced nowNs t (t.updateByKey key f) := by
  unfold updateByKey
  split
  · exact .refl nowNs t
  · exact paced_updateEntry nowNs t _ hf

/-- A session gets a tick that is not in the past, and a hint under its own key. -/
theorem paced_schedule (hclear : ¬t.Aliased key) (hr : t.recordByKey key = some (h, r))
    {f : SessionEntry → SessionEntry} (hflow : SameFlow r { r with entry := f r.entry }) (htidy : Tidy (f r.entry))
    (hle : nowNs / wheelTickNs ≤ (f r.entry).wheelTick) {wheel : SessionWheel}
    (hwheel : wheel.buckets = (t.wheel.push ⟨key, (f r.entry).wheelTick⟩).buckets) :
    Paced nowNs t { t.updateEntry h f with wheel := wheel } := by
  have hg := get_of_recordByKey hr
  have hkey := key_of_not_aliased hclear hr
  have hsession : ∀ n r', (t.entries.update h fun r => { r with entry := f r.entry }).get n = some r' →
      ∃ r₀, t.entries.get n = some r₀ ∧ SameFlow r₀ r' ∧
        OnPace nowNs t { t.updateEntry h f with wheel := wheel } r₀ r' := by
    intro n r' hr'
    rw [Slab.get_update] at hr'
    split at hr'
    · next heq =>
      rw [hg] at hr'
      obtain rfl := Option.some.inj hr'
      refine ⟨r, heq ▸ hg, hflow, Or.inr ⟨hle, ?_, htidy⟩⟩
      show WheelEntry.mk r.key _ ∈ wheel.buckets _
      rw [hwheel, hkey]
      exact mem_buckets_push.mpr (Or.inr ⟨rfl, rfl⟩)
    · refine ⟨r', hr', .refl r', Or.inl ⟨rfl, fun hh => ⟨?_, hh.2⟩⟩⟩
      show WheelEntry.mk r'.key _ ∈ wheel.buckets _
      rw [hwheel]
      exact mem_buckets_push.mpr (Or.inl hh.1)
  refine ⟨hsession, fun b w hw => ?_⟩
  change w ∈ wheel.buckets b at hw
  rw [hwheel] at hw
  rcases mem_buckets_push.mp hw with hw | ⟨-, rfl⟩
  · exact Or.inl hw
  · right
    rintro ⟨n, r', hr', ha⟩
    obtain ⟨r₀, hr₀, hflow₀, -⟩ := hsession n r' hr'
    exact hclear ⟨n, r₀, hr₀, hflow₀.aliasOf ha⟩

theorem le_targetTickFor (nowNs expirationNs : ℕ) : nowNs / wheelTickNs ≤ targetTickFor nowNs expirationNs :=
  Nat.le_add_right _ _

/-- `push_to_wheel` on the session a key leads to. -/
theorem pushToWheel_eq (hr : t.recordByKey key = some (h, r)) (nowNs : ℕ) :
    t.pushToWheel key nowNs =
      { t.updateEntry h (pushEntry (t.wheel.observe nowNs).cursorTick nowNs) with
        wheel := match pushTick r.entry (t.wheel.observe nowNs).cursorTick nowNs with
          | some tick => (t.wheel.observe nowNs).push ⟨key, tick⟩
          | none => t.wheel.observe nowNs } := by
  have hr' : { t with wheel := t.wheel.observe nowNs }.recordByKey key = some (h, r) := hr
  unfold pushToWheel
  simp only [entryByKey, hr', Option.map_some, updateByKey_eq hr']
  cases pushTick r.entry (t.wheel.observe nowNs).cursorTick nowNs <;> rfl

theorem pushToWheel_of_none (hr : t.recordByKey key = none) (nowNs : ℕ) :
    t.pushToWheel key nowNs = { t with wheel := t.wheel.observe nowNs } := by
  have hr' : { t with wheel := t.wheel.observe nowNs }.recordByKey key = none := hr
  unfold pushToWheel
  simp only [entryByKey, hr', Option.map_none]

theorem paced_observe (t : Table) (nowNs : ℕ) : Paced nowNs t { t with wheel := t.wheel.observe nowNs } where
  session := by
    intro n r hr
    refine ⟨r, hr, .refl r, Or.inl ⟨rfl, fun hh => ⟨?_, hh.2⟩⟩⟩
    show _ ∈ (t.wheel.observe nowNs).buckets _
    rw [buckets_observe]
    exact hh.1
  hint := by
    intro b w hw
    change w ∈ (t.wheel.observe nowNs).buckets b at hw
    rw [buckets_observe] at hw
    exact Or.inl hw

theorem pushEntry_of_some {e : SessionEntry} {cursorTick tick : ℕ} (hp : pushTick e cursorTick nowNs = some tick) :
    pushEntry cursorTick nowNs e = scheduleAt tick e := by simp only [pushEntry, hp]

theorem target_of_pushTick {e : SessionEntry} {cursorTick tick : ℕ} (hp : pushTick e cursorTick nowNs = some tick) :
    tick = targetTickFor nowNs e.expirationNs := by
  unfold pushTick at hp
  dsimp only at hp
  split_ifs at hp <;> exact (Option.some.inj hp).symm

/-- Where `push_to_wheel` queues nothing, the session keeps its tick. -/
theorem pushEntry_of_none {e : SessionEntry} {cursorTick : ℕ} (hp : pushTick e cursorTick nowNs = none) :
    pushEntry cursorTick nowNs e = e ∨ pushEntry cursorTick nowNs e = e.clearHeld := by
  simp only [pushEntry, hp]
  split_ifs
  · exact Or.inl rfl
  · exact Or.inr rfl

theorem paced_pushToWheel (hclear : ¬t.Aliased key) (nowNs : ℕ) : Paced nowNs t (t.pushToWheel key nowNs) := by
  cases hr : t.recordByKey key with
  | none =>
    rw [pushToWheel_of_none hr]
    exact paced_observe t nowNs
  | some p =>
    obtain ⟨h, r⟩ := p
    rw [pushToWheel_eq hr]
    cases hp : pushTick r.entry (t.wheel.observe nowNs).cursorTick nowNs with
    | some tick =>
      have hentry := pushEntry_of_some hp
      refine paced_schedule hclear hr ?_ ?_ ?_ ?_
      · rw [hentry]
        exact ⟨rfl, rfl, rfl⟩
      · rw [hentry]
        exact Or.inl rfl
      · rw [hentry, target_of_pushTick hp]
        exact le_targetTickFor nowNs _
      · rw [hentry]
        simp only [SessionWheel.push, buckets_observe]
        rfl
    | none =>
      have hkept : Paced nowNs t (t.updateEntry h (pushEntry (t.wheel.observe nowNs).cursorTick nowNs)) := by
        refine paced_updateEntry_of nowNs t h fun r' hr' => ?_
        rw [get_of_recordByKey hr] at hr'
        obtain rfl := Option.some.inj hr'
        rcases pushEntry_of_none hp with heq | heq <;> rw [heq]
        · exact ⟨⟨rfl, rfl, rfl⟩, rfl, id⟩
        · exact ⟨⟨rfl, rfl, rfl⟩, rfl, fun _ => Or.inl rfl⟩
      exact hkept.trans (paced_observe _ nowNs)

/-! ## The operations that bring no new flow -/

theorem keepsHint_stampSeen (seenNs : ℕ) : KeepsHint (.stampSeen seenNs) := fun _ => ⟨rfl, rfl, rfl, rfl⟩

theorem keepsHint_stampHealed (seenNs : ℕ) (epoch : UInt32) : KeepsHint (.stampHealed seenNs epoch) :=
  fun _ => ⟨rfl, rfl, rfl, rfl⟩

theorem paced_touch (hclear : ¬t.Aliased key) (nowNs : ℕ) : Paced nowNs t (t.touch key nowNs) := by
  unfold touch
  split
  · exact .refl nowNs t
  · have hstamp := paced_updateByKey nowNs t key (keepsHint_stampSeen nowNs)
    exact hstamp.trans (paced_pushToWheel (hstamp.not_aliased hclear) nowNs)

theorem paced_rescheduleAt (hclear : ¬t.Aliased key) {tick : ℕ} (hle : nowNs / wheelTickNs ≤ tick) :
    Paced nowNs t (t.rescheduleAt key tick) := by
  unfold rescheduleAt
  split
  · exact .refl nowNs t
  · next he =>
    obtain ⟨h, r, hr, -⟩ := entryByKey_eq_some he
    rw [updateByKey_eq hr]
    exact paced_schedule hclear hr ⟨rfl, rfl, rfl⟩ (Or.inl rfl) hle rfl

theorem paced_rebucketAliveEntry (hclear : ¬t.Aliased key) (nowNs : ℕ) :
    Paced nowNs t (t.rebucketAliveEntry key nowNs) := by
  unfold rebucketAliveEntry
  split
  · exact .refl nowNs t
  · exact paced_rescheduleAt hclear (le_targetTickFor nowNs _)

/-- A session is stamped and scheduled again. -/
theorem paced_stampRebucket (hclear : ¬t.Aliased key) {f : SessionEntry → SessionEntry} (hf : KeepsHint f) (nowNs : ℕ) :
    Paced nowNs t ((t.updateByKey key f).rebucketAliveEntry key nowNs) := by
  have hstamp := paced_updateByKey nowNs t key hf
  exact hstamp.trans (paced_rebucketAliveEntry (hstamp.not_aliased hclear) nowNs)

theorem paced_restamp (hclear : ¬t.Aliased key) (nowNs : ℕ) (epoch : Option UInt32) :
    Paced nowNs t (t.restampLapsedPeerSynced key nowNs epoch) := by
  unfold restampLapsedPeerSynced
  split
  · exact .refl nowNs t
  · split_ifs
    · exact .refl nowNs t
    · exact paced_stampRebucket hclear (keepsHint_stampHealed nowNs _) nowNs

theorem keepsHint_propagateEntry (config : Config) (protocol : UInt8) (nowNs : ℕ) (p : TcpStatePropagation) :
    KeepsHint (propagateEntry config protocol nowNs p) := by
  intro e
  unfold propagateEntry
  dsimp only
  split_ifs <;> exact ⟨rfl, rfl, rfl, rfl⟩

theorem paced_propagate {matchedKey : SessionKey} {p : TcpStatePropagation}
    (hclear : ¬t.Aliased (reverseSessionKey matchedKey p.nat)) (nowNs : ℕ) :
    Paced nowNs t (t.propagateTcpStateToCompanion matchedKey nowNs p) := by
  unfold propagateTcpStateToCompanion
  dsimp only
  split
  · exact .refl nowNs t
  · have hupd := paced_updateByKey nowNs t (reverseSessionKey matchedKey p.nat)
      (keepsHint_propagateEntry t.config (reverseSessionKey matchedKey p.nat).protocol nowNs p)
    split_ifs
    · exact hupd.trans (paced_pushToWheel (hupd.not_aliased hclear) nowNs)
    · exact hupd

theorem keepsHint_completeEntry (config : Config) (protocol tcpFlags : UInt8) (nowNs : ℕ) :
    KeepsHint (completeEntry config protocol tcpFlags nowNs) := fun _ => ⟨rfl, rfl, rfl, rfl⟩

theorem paced_completeHandshake {matchedKey : SessionKey} {nat : NatDecision} (hclear : ¬t.Aliased matchedKey)
    (hcompanion : ¬t.Aliased (reverseSessionKey matchedKey nat)) (nowNs : ℕ) (tcpFlags : UInt8) :
    Paced nowNs t (t.completeHandshake matchedKey nat nowNs tcpFlags) := by
  have hupd := paced_updateByKey nowNs t matchedKey
    (keepsHint_completeEntry t.config matchedKey.protocol tcpFlags nowNs)
  have htold := hupd.trans (paced_propagate (p := ⟨nat, false, false, false, false, true⟩)
    (hupd.not_aliased hcompanion) nowNs)
  exact htold.trans (paced_pushToWheel (htold.not_aliased hclear) nowNs)

theorem PacketHit.keepsHint_entry (hit : PacketHit) (config : Config) (nowNs : ℕ) :
    KeepsHint (hit.entry config nowNs) := by
  intro e
  obtain ⟨hnat, hmeta, -⟩ := hit.keepsView_entry config nowNs e
  refine ⟨hnat, by rw [hmeta], ?_⟩
  unfold PacketHit.entry PacketHit.refreshed PacketHit.completed PacketHit.promoted PacketHit.closed stampTcpClose
  split_ifs <;> exact ⟨rfl, rfl⟩

/-- Whether a hit tells the companion anything. -/
def PacketHit.propagates (hit : PacketHit) (e : SessionEntry) : Bool :=
  (hit.propagation e).close || (hit.propagation e).established || (hit.propagation e).handshakeCompleted

/-- The keys a hit reaches beside the session it found are no aliases. -/
def PacketHit.Clear (hit : PacketHit) (t : Table) : Prop :=
  ∀ h r, t.recordByKey hit.key = some (h, r) →
    (hit.propagates r.entry = true → ¬t.Aliased (reverseSessionKey r.key r.entry.decision.nat))
      ∧ ∀ matchedKey nat, hit.progress = some (matchedKey, nat) →
        ¬t.Aliased matchedKey ∧ ¬t.Aliased (reverseSessionKey matchedKey nat)

theorem paced_lookup (he : t.Effective) {hit : PacketHit} (hclear : hit.Clear t) (nowNs : ℕ) :
    Paced nowNs t (t.lookup hit nowNs) := by
  unfold lookup
  split
  · exact .refl nowNs t
  · next handle record hr =>
    obtain ⟨htold, hprogress⟩ := hclear handle record hr
    have hown := he.not_aliased (get_of_recordByKey hr)
    split_ifs
    · exact .refl nowNs t
    · have hupd := paced_updateEntry nowNs t handle (hit.keepsHint_entry t.config nowNs)
      dsimp only
      split_ifs with hp
      · have hpaced := hupd.trans (paced_propagate (p := hit.propagation record.entry)
          (hupd.not_aliased (htold hp)) nowNs)
        exact hpaced.trans (paced_pushToWheel (hpaced.not_aliased hown) nowNs)
      · split
        · next matchedKey nat _ hsome =>
          obtain ⟨hmatched, hcompanion⟩ := hprogress matchedKey nat hsome
          have hpaced := hupd.trans (paced_completeHandshake (hupd.not_aliased hmatched)
            (hupd.not_aliased hcompanion) nowNs hit.tcpFlags)
          exact hpaced.trans (paced_pushToWheel (hpaced.not_aliased hown) nowNs)
        · exact hupd.trans (paced_pushToWheel (hupd.not_aliased hown) nowNs)

/-- Fewer sessions and the same hints. -/
theorem paced_removeEntry (nowNs : ℕ) (hk : t.Keyed) (key : SessionKey) : Paced nowNs t (t.removeEntry key) := by
  cases hl : t.keyToHandle.lookup key with
  | none =>
    rw [removeEntry_of_lookup_none hl]
    exact .refl nowNs t
  | some h =>
    obtain ⟨e, hg⟩ := hk.get hl
    rw [removeEntry_eq hl hg]
    refine ⟨fun n r hr => ?_, fun b w hw => Or.inl hw⟩
    change (t.entries.remove h).get n = some r at hr
    rw [Slab.get_remove] at hr
    split at hr
    · cases hr
    · exact ⟨r, hr, .refl r, Or.inl ⟨rfl, id⟩⟩

theorem keepsHint_bindZones (zones : ZonePair) : KeepsHint (bindZones zones) := fun _ => ⟨rfl, rfl, rfl, rfl⟩

theorem keepsHint_bindPolicy (policyId policyCounterIdx : UInt32) : KeepsHint (bindPolicy policyId policyCounterIdx) :=
  fun _ => ⟨rfl, rfl, rfl, rfl⟩

theorem KeepsHint.comp {f g : SessionEntry → SessionEntry} (hf : KeepsHint f) (hg : KeepsHint g) :
    KeepsHint fun e => f (g e) := by
  intro e
  obtain ⟨hn, hr, ht, hh⟩ := hg e
  obtain ⟨hn', hr', ht', hh'⟩ := hf (g e)
  exact ⟨hn'.trans hn, hr'.trans hr, ht'.trans ht, hh'.trans hh⟩

theorem paced_rebindPair (nowNs : ℕ) (t : Table) (key : SessionKey) (zones : ZonePair) {bind : SessionEntry → SessionEntry}
    (hbind : KeepsHint bind) : Paced nowNs t (t.rebindPair key zones bind) := by
  unfold rebindPair
  split
  · exact .refl nowNs t
  · dsimp only
    have hforward := paced_updateByKey nowNs t key ((keepsHint_bindZones zones).comp hbind)
    split_ifs
    · exact .refl nowNs t
    · exact .refl nowNs t
    · exact (hforward.trans (paced_updateByKey nowNs _ _ ((keepsHint_bindZones zones.swap).comp hbind))).trans
        (.of_eq rfl rfl)
    · exact hforward.trans (.of_eq rfl rfl)

theorem keepsHint_moveEgress (zone : UInt32) : KeepsHint (moveEgress zone) := by
  intro e
  unfold moveEgress
  split_ifs <;> exact ⟨rfl, rfl, rfl, rfl⟩

theorem keepsHint_moveIngress (zone : UInt32) : KeepsHint (moveIngress zone) := by
  intro e
  unfold moveIngress
  split_ifs <;> exact ⟨rfl, rfl, rfl, rfl⟩

theorem paced_moveBoth (nowNs : ℕ) (t : Table) (forwardKey reverseKey : SessionKey) (zone : UInt32) :
    Paced nowNs t ((t.updateByKey forwardKey (moveEgress zone)).updateByKey reverseKey (moveIngress zone)) :=
  (paced_updateByKey nowNs t forwardKey (keepsHint_moveEgress zone)).trans
    (paced_updateByKey nowNs _ reverseKey (keepsHint_moveIngress zone))

/-- A session whose owner group moves keeps its pace. -/
theorem paced_reowned (nowNs : ℕ) (t : Table) (h : ℕ) (old : Int32) (ownerRgId : Option Int32) :
    Paced nowNs t (match ownerRgId with
      | some newOwner =>
        if newOwner ≠ old then
          { t with
            index :=
              if newOwner > 0 then (removeOwnerRgIndexEntry t.index old h).push (.ownerRg newOwner) h
              else removeOwnerRgIndexEntry t.index old h }
        else t
      | none => t) := by
  cases ownerRgId with
  | none => exact .refl nowNs t
  | some newOwner =>
    dsimp only
    split_ifs <;> exact .of_eq rfl rfl

theorem paced_revalidate (nowNs : ℕ) (t : Table) (key : SessionKey) (disposition : ForwardingDisposition)
    (ownerRgId : Option Int32) (newEgressZone : Option UInt32) :
    Paced nowNs t (t.revalidateForwardingResolution key disposition ownerRgId newEgressZone) := by
  unfold revalidateForwardingResolution
  split
  · exact .refl nowNs t
  · next h _ =>
    split
    · exact .refl nowNs t
    · next r hg =>
      dsimp only
      have hentry : KeepsHint (revalidateEntry disposition ownerRgId) := fun _ => ⟨rfl, rfl, rfl, rfl⟩
      have howned : ∀ owned : Table, Paced nowNs t owned →
          Paced nowNs t (owned.updateEntry h (revalidateEntry disposition ownerRgId)) :=
        fun owned hp => hp.trans (paced_updateEntry nowNs owned h hentry)
      split
      · exact howned _ (paced_reowned nowNs t h r.entry.metadata.ownerRgId ownerRgId)
      · next zone =>
        have hdone := howned _ (paced_reowned nowNs t h r.entry.metadata.ownerRgId ownerRgId)
        split_ifs
        · exact hdone.trans (paced_moveBoth nowNs _ _ _ zone)
        · exact hdone.trans (paced_updateByKey nowNs _ _ (keepsHint_moveIngress zone))
        · exact hdone.trans (paced_updateByKey nowNs _ _ (keepsHint_moveEgress zone))

theorem paced_rebindForwardEgressZone (nowNs : ℕ) (t : Table) (key : SessionKey) (newEgressZone : UInt32) :
    Paced nowNs t (t.rebindForwardEgressZone key newEgressZone) := by
  unfold rebindForwardEgressZone
  split
  · exact .refl nowNs t
  · dsimp only
    split
    · exact .refl nowNs t
    · split_ifs
      · exact .refl nowNs t
      · exact paced_moveBoth nowNs t _ _ newEgressZone
      · exact paced_updateByKey nowNs t _ (keepsHint_moveEgress newEgressZone)

theorem paced_demoteOwnerRg (nowNs : ℕ) (t : Table) (ownerRgId : Int32) : Paced nowNs t (t.demoteOwnerRg ownerRgId) := by
  have hone : ∀ (t : Table) (key : SessionKey), Paced nowNs t (t.demoteSession key) := by
    intro t key
    unfold demoteSession
    split
    · exact .refl nowNs t
    · have horigin : ∀ origin, KeepsHint (withOrigin origin) := fun _ _ => ⟨rfl, rfl, rfl, rfl⟩
      exact (paced_updateByKey nowNs t key (horigin _)).trans (.of_eq rfl rfl)
  unfold demoteOwnerRg
  split_ifs
  · exact .refl nowNs t
  · exact List.foldlRecOn (motive := fun t' => Paced nowNs t t') _ _ (.refl nowNs t)
      fun t' ht' key _ => ht'.trans (hone t' key)

/-! ## The expiry pass -/

theorem Keyed.updateEntry (hk : t.Keyed) (h : ℕ) (f : SessionEntry → SessionEntry) : (t.updateEntry h f).Keyed := by
  intro key n
  show t.keyToHandle.lookup key = some n ↔ ∃ r, (t.entries.update h _).get n = some r ∧ r.key = key
  rw [hk key n, Slab.get_update]
  by_cases heq : n = h
  · subst heq
    simp
  · rw [if_neg heq]

/-- A rewritten session is found where it was. -/
theorem Keyed.recordByKey_updateEntry (hk : t.Keyed) (hg : t.entries.get h = some r) (f : SessionEntry → SessionEntry) :
    (t.updateEntry h f).recordByKey r.key = some (h, { r with entry := f r.entry }) := by
  have hg' : (t.updateEntry h f).entries.get h = some { r with entry := f r.entry } := by
    show (t.entries.update h _).get h = _
    rw [Slab.get_update, if_pos rfl, hg]
    rfl
  exact (hk.updateEntry h f).recordByKey hg'

theorem paced_align {nat : NatDecision} (hclear : ¬t.Aliased (reverseSessionKey key nat)) (nowNs : ℕ) :
    Paced nowNs t (t.alignNodeKeptCompanion key nat nowNs) := by
  unfold alignNodeKeptCompanion
  dsimp only
  split_ifs
  · exact .refl nowNs t
  · split
    · exact .refl nowNs t
    · split_ifs
      · exact .refl nowNs t
      · exact paced_stampRebucket hclear (keepsHint_stampSeen nowNs) nowNs

theorem lt_heldRecheckTick (nowNs firstHeldNs staleCeilingNs : ℕ) :
    nowNs / wheelTickNs < heldRecheckTick nowNs firstHeldNs staleCeilingNs := by
  unfold heldRecheckTick
  exact lt_of_lt_of_le (Nat.lt_succ_self _) (le_max_right _ _)

/-- A session that is gone, or has a tick that is not in the past with its hint queued. -/
def Settled (nowNs : ℕ) (t : Table) (h : ℕ) : Prop :=
  ∀ r, t.entries.get h = some r → nowNs / wheelTickNs ≤ r.entry.wheelTick ∧ t.Hinted r

theorem Settled.paced (hs : Settled nowNs t h) (hp : Paced nowNs t t') : Settled nowNs t' h := by
  intro r' hr'
  obtain ⟨r, hr, -, hpace⟩ := hp.session h r' hr'
  rcases hpace with ⟨htick, hhint⟩ | hplaced
  · obtain ⟨hle, hh⟩ := hs r hr
    exact ⟨htick ▸ hle, hhint hh⟩
  · exact hplaced

theorem settled_schedule (hkey : r.key = key) (hg : t.entries.get h = some r) {f : SessionEntry → SessionEntry}
    (htidy : Tidy (f r.entry)) (hle : nowNs / wheelTickNs ≤ (f r.entry).wheelTick) :
    Settled nowNs { t.updateEntry h f with wheel := t.wheel.push ⟨key, (f r.entry).wheelTick⟩ } h := by
  intro r' hr'
  change (t.entries.update h _).get h = some r' at hr'
  rw [Slab.get_update, if_pos rfl, hg] at hr'
  obtain rfl := Option.some.inj hr'
  refine ⟨hle, ?_, htidy⟩
  subst hkey
  exact mem_buckets_push.mpr (Or.inr ⟨rfl, rfl⟩)

theorem settled_rescheduleAt (hkey : r.key = key) (hr : t.recordByKey key = some (h, r)) {tick : ℕ}
    (hle : nowNs / wheelTickNs ≤ tick) : Settled nowNs (t.rescheduleAt key tick) h := by
  have he : t.entryByKey key = some r.entry := by rw [entryByKey, hr]; rfl
  simp only [rescheduleAt, he, updateByKey_eq hr]
  exact settled_schedule hkey (get_of_recordByKey hr) (Or.inl rfl) hle

theorem settled_stampRebucket (hk : t.Keyed) (hkey : r.key = key) (hr : t.recordByKey key = some (h, r))
    (f : SessionEntry → SessionEntry) (nowNs : ℕ) :
    Settled nowNs ((t.updateByKey key f).rebucketAliveEntry key nowNs) h := by
  have hr' := hk.recordByKey_updateEntry (get_of_recordByKey hr) f
  rw [hkey] at hr'
  have he : (t.updateEntry h f).entryByKey key = some (f r.entry) := by rw [entryByKey, hr']; rfl
  rw [updateByKey_eq hr]
  simp only [rebucketAliveEntry, he]
  exact settled_rescheduleAt (r := ⟨key, f r.entry⟩) rfl hr' (le_targetTickFor nowNs _)

theorem settled_removeEntry (hk : t.Keyed) (hkey : r.key = key) (hr : t.recordByKey key = some (h, r)) :
    Settled nowNs (t.removeEntry key) h := by
  have hg := get_of_recordByKey hr
  subst hkey
  have hl : t.keyToHandle.lookup r.key = some h := (hk r.key h).mpr ⟨r, hg, rfl⟩
  rw [removeEntry_eq hl hg]
  intro r' hr'
  change (t.entries.remove h).get h = some r' at hr'
  rw [Slab.get_remove, if_pos rfl] at hr'
  cases hr'

/-- The two things a pass does to a session it looks at. -/
structure Visits (nowNs : ℕ) (t t' : Table) (h : ℕ) : Prop where
  paced : Paced nowNs t t'
  settled : Settled nowNs t' h

theorem visits_heldEntry (hclear : ¬t.Aliased key) (hr : t.recordByKey key = some (h, r)) {tick : ℕ}
    (hle : nowNs / wheelTickNs ≤ tick) (first : ℕ) :
    Visits nowNs t { t.updateEntry h (heldEntry tick first) with wheel := t.wheel.push ⟨key, tick⟩ } h :=
  ⟨paced_schedule hclear hr ⟨rfl, rfl, rfl⟩ (Or.inr rfl) hle rfl,
    settled_schedule (key_of_not_aliased hclear hr) (get_of_recordByKey hr) (Or.inr rfl) hle⟩

theorem scheduleHeldRecheck_eq (hr : t.recordByKey key = some (h, r)) (nowNs first ceiling : ℕ) :
    t.scheduleHeldRecheck key nowNs first ceiling =
      { t.updateEntry h (heldEntry (heldRecheckTick nowNs first ceiling) first) with
        wheel := t.wheel.push ⟨key, heldRecheckTick nowNs first ceiling⟩ } := by
  rw [scheduleHeldRecheck, updateByKey_eq hr]
  generalize heldRecheckTick nowNs first ceiling = tick
  rfl

theorem visits_holdEntry (hk : t.Keyed) (hclear : ¬t.Aliased key) (hr : t.recordByKey key = some (h, r))
    (nowNs : ℕ) (ha : ExpireHaContext) (e : SessionEntry) : Visits nowNs t (t.holdEntry key nowNs ha e) h := by
  have hkey := key_of_not_aliased hclear hr
  have hsince : ∀ first, KeepsHint (heldSince first) := fun _ _ => ⟨rfl, rfl, rfl, rfl⟩
  rw [holdEntry, updateByKey_eq hr]
  generalize (if e.firstHeldNs = 0 then nowNs else e.firstHeldNs) = first
  have hstamp := paced_updateEntry nowNs t h (hsince first)
  have hr' := hk.recordByKey_updateEntry (get_of_recordByKey hr) (heldSince first)
  rw [hkey] at hr'
  rw [scheduleHeldRecheck_eq hr']
  have hheld := visits_heldEntry (hstamp.not_aliased hclear) hr'
    (le_of_lt (lt_heldRecheckTick nowNs first (ha.staleCeilingNs e.expiresAfterNs))) first
  exact ⟨hstamp.trans hheld.paced, hheld.settled⟩

theorem visits_ageEntry (hk : t.Keyed) (hclear : ¬t.Aliased key) (hr : t.recordByKey key = some (h, r)) (nowNs : ℕ)
    {answer : Retention}
    (halign : ∀ seenNs, answer = .keep seenNs true → ¬t.Aliased (reverseSessionKey key r.entry.decision.nat)) :
    Visits nowNs t (t.ageEntry key nowNs r.entry answer) h := by
  have hkey := key_of_not_aliased hclear hr
  cases answer with
  | expire => exact ⟨paced_removeEntry nowNs hk key, settled_removeEntry hk hkey hr⟩
  | keep lastSeenNs alignCompanion =>
    have hkept := paced_stampRebucket hclear (keepsHint_stampSeen lastSeenNs) nowNs
    have hsettled := settled_stampRebucket hk hkey hr (.stampSeen lastSeenNs) nowNs
    cases alignCompanion with
    | false => exact ⟨hkept, hsettled⟩
    | true =>
      have haligned := paced_align (hkept.not_aliased (halign lastSeenNs rfl)) nowNs
      exact ⟨hkept.trans haligned, hsettled.paced haligned⟩
  | deferUntil deadlineNs =>
    exact ⟨paced_rescheduleAt hclear (le_targetTickFor nowNs deadlineNs),
      settled_rescheduleAt hkey hr (le_targetTickFor nowNs deadlineNs)⟩

/-- The companions a pass stamps are reached by no alias. -/
def PassClear (pass : GcPass) (t : Table) : Prop :=
  ∀ h r seenNs, t.entries.get h = some r → pass.retention r.key = .keep seenNs true →
    ¬t.Aliased (reverseSessionKey r.key r.entry.decision.nat)

theorem PassClear.paced {pass : GcPass} (hc : PassClear pass t) (hp : Paced nowNs t t') : PassClear pass t' := by
  intro h r' seenNs hr' hkeep
  obtain ⟨r, hr, hflow, -⟩ := hp.session h r' hr'
  rw [hflow.key] at hkeep ⊢
  rw [hflow.nat]
  exact hp.not_aliased (hc h r seenNs hr hkeep)

theorem visits_expireLapsed (hk : t.Keyed) (hclear : ¬t.Aliased key) (hr : t.recordByKey key = some (h, r)) (nowNs : ℕ)
    {pass : GcPass} (hpass : PassClear pass t) : Visits nowNs t (t.expireLapsed key nowNs pass r.entry) h := by
  have hkey := key_of_not_aliased hclear hr
  have hage : Visits nowNs t (t.ageEntry key nowNs r.entry (pass.retention key)) h := by
    refine visits_ageEntry hk hclear hr nowNs fun seenNs hkeep => ?_
    rw [← hkey] at hkeep ⊢
    exact hpass h r seenNs (get_of_recordByKey hr) hkeep
  have hremove : Visits nowNs t (t.removeEntry key) h :=
    ⟨paced_removeEntry nowNs hk key, settled_removeEntry hk hkey hr⟩
  unfold expireLapsed
  split
  · exact hage
  · split
    · exact ⟨paced_stampRebucket hclear (keepsHint_stampHealed nowNs _) nowNs,
        settled_stampRebucket hk hkey hr _ nowNs⟩
    · exact visits_holdEntry hk hclear hr nowNs _ r.entry
    · exact hremove
    · exact hremove
    · exact hage

/-- The table with the front hint of a bucket taken out. -/
def popped (t : Table) (b : ℕ) (rest : List WheelEntry) : Table :=
  { t with wheel := { t.wheel with buckets := Function.update t.wheel.buckets b rest } }

variable {b : ℕ} {w : WheelEntry} {rest : List WheelEntry}

theorem mem_of_mem_popped (hb : t.wheel.buckets b = w :: rest) {b' : ℕ} {w' : WheelEntry}
    (hw : w' ∈ (t.popped b rest).wheel.buckets b') : w' ∈ t.wheel.buckets b' := by
  simp only [popped] at hw
  by_cases heq : b' = b
  · subst heq
    rw [Function.update_self] at hw
    rw [hb]
    exact List.mem_cons_of_mem w hw
  · rwa [Function.update_of_ne heq] at hw

/-- Only the hint that was taken out can be missing. -/
theorem hinted_popped (hb : t.wheel.buckets b = w :: rest) (hne : WheelEntry.mk r.key r.entry.wheelTick ≠ w)
    (hh : t.Hinted r) : (t.popped b rest).Hinted r := by
  refine ⟨?_, hh.2⟩
  have hmem := hh.1
  simp only [Queued, popped] at hmem ⊢
  by_cases heq : bucketForTick r.entry.wheelTick = b
  · rw [heq, Function.update_self]
    rw [heq, hb] at hmem
    exact (List.mem_cons.mp hmem).resolve_left hne
  · rwa [Function.update_of_ne heq]

/-- A hint that speaks for no session can go. -/
theorem paced_popped (hb : t.wheel.buckets b = w :: rest)
    (hidle : ∀ h r, t.entries.get h = some r → t.Hinted r → WheelEntry.mk r.key r.entry.wheelTick ≠ w) :
    Paced nowNs t (t.popped b rest) where
  session := fun h r hr => ⟨r, hr, .refl r, Or.inl ⟨rfl, fun hh => hinted_popped hb (hidle h r hr hh) hh⟩⟩
  hint := fun _ _ hw => Or.inl (mem_of_mem_popped hb hw)

/-- A hint that speaks for a session can go when the session is settled without it. -/
theorem Visits.popped (hb : t.wheel.buckets b = w :: rest)
    (hone : ∀ n r', t.entries.get n = some r' → r'.key = w.key → n = h) (hv : Visits nowNs (t.popped b rest) t' h) :
    Paced nowNs t t' where
  session := by
    intro n r' hr'
    obtain ⟨r₀, hr₀, hflow, hpace⟩ := hv.paced.session n r' hr'
    refine ⟨r₀, hr₀, hflow, ?_⟩
    rcases hpace with ⟨htick, hhint⟩ | hplaced
    · by_cases hn : n = h
      · subst hn
        exact Or.inr (hv.settled r' hr')
      · refine Or.inl ⟨htick, fun hh => hhint (hinted_popped hb ?_ hh)⟩
        intro heq
        exact hn (hone n r₀ hr₀ (congrArg WheelEntry.key heq))
    · exact Or.inr hplaced
  hint := by
    intro b' w' hw'
    exact (hv.paced.hint b' w' hw').imp_left (mem_of_mem_popped hb)

/-- What a pass relies on: the maps, the hints, and the companions it stamps. -/
structure Ready (pass : GcPass) (t : Table) : Prop where
  indexed : t.Indexed
  effective : t.Effective
  clear : PassClear pass t

theorem Ready.next {pass : GcPass} (hready : Ready pass t) (hp : Paced nowNs t t') (hi : t'.Indexed) : Ready pass t' :=
  ⟨hi, hready.effective.paced hp, hready.clear.paced hp⟩

/-- The hint names the session it leads to, and no other session has its key. -/
theorem Ready.names {pass : GcPass} (hready : Ready pass t) (hw : w ∈ t.wheel.buckets b)
    (hr : t.recordByKey w.key = some (h, r)) :
    r.key = w.key ∧ ∀ n r', t.entries.get n = some r' → r'.key = w.key → n = h := by
  have hkey := key_of_not_aliased (hready.effective.apart b w hw) hr
  refine ⟨hkey, fun n r' hr' hkey' => ?_⟩
  have hn := (hready.indexed.keyed w.key n).mpr ⟨r', hr', hkey'⟩
  have hh := (hready.indexed.keyed w.key h).mpr ⟨r, get_of_recordByKey hr, hkey⟩
  rw [hh] at hn
  exact (Option.some.inj hn).symm

theorem paced_processHint {pass : GcPass} (hready : Ready pass t) (hb : t.wheel.buckets b = w :: rest) (nowNs : ℕ) :
    Paced nowNs t ((t.popped b rest).processHint w nowNs pass) := by
  have hw : w ∈ t.wheel.buckets b := by
    rw [hb]
    exact List.mem_cons_self
  have hclear : ¬(t.popped b rest).Aliased w.key := hready.effective.apart b w hw
  have hkeyed : (t.popped b rest).Keyed := hready.indexed.keyed
  unfold processHint
  split
  · next hnone =>
    -- no session has the hint's key
    refine paced_popped hb fun h r hr _ heq => ?_
    have hfound := hkeyed.recordByKey hr
    have hkey : r.key = w.key := congrArg WheelEntry.key heq
    rw [entryByKey, ← hkey, hfound] at hnone
    cases hnone
  · next e he =>
    obtain ⟨h, r, hr, rfl⟩ := entryByKey_eq_some he
    obtain ⟨hkey, hone⟩ := hready.names hw hr
    split_ifs with hstale hlapsed
    · -- a session with this hint would find it fresh
      refine paced_popped hb fun n r' hr' hh heq => ?_
      obtain rfl := hone n r' hr' (congrArg WheelEntry.key heq)
      have hsame : r' = r := by
        have hg : t.entries.get n = some r := get_of_recordByKey hr
        rw [hr'] at hg
        exact Option.some.inj hg
      subst hsame
      have htick : r'.entry.wheelTick = w.scheduledTick := congrArg WheelEntry.scheduledTick heq
      exact hh.2.not_stale (htick ▸ hstale)
    · exact Visits.popped hb hone (visits_expireLapsed hkeyed hclear hr nowNs hready.clear)
    · exact Visits.popped hb hone ⟨paced_rescheduleAt hclear (le_targetTickFor nowNs _),
        settled_rescheduleAt hkey hr (le_targetTickFor nowNs _)⟩

/-- A hint of a later round moves to the back of its bucket. -/
theorem paced_rotate (hb : t.wheel.buckets b = w :: rest) (nowNs : ℕ) : Paced nowNs t (t.popped b (rest ++ [w])) := by
  have hmem : ∀ b' w', w' ∈ (t.popped b (rest ++ [w])).wheel.buckets b' ↔ w' ∈ t.wheel.buckets b' := by
    intro b' w'
    simp only [Table.popped]
    by_cases heq : b' = b
    · subst heq
      rw [Function.update_self, hb]
      simp [or_comm]
    · rw [Function.update_of_ne heq]
  exact ⟨fun h r hr => ⟨r, hr, .refl r, Or.inl ⟨rfl, fun hh => ⟨(hmem _ _).mpr hh.1, hh.2⟩⟩⟩,
    fun b' w' hw' => Or.inl ((hmem b' w').mp hw')⟩

theorem paced_popFront {pass : GcPass} (hready : Ready pass t) (b nowNs : ℕ) : Paced nowNs t (t.popFront b nowNs pass) := by
  unfold popFront
  split
  · exact .refl nowNs t
  · next w rest hb =>
    split_ifs
    · exact paced_rotate hb nowNs
    · exact paced_processHint hready hb nowNs

theorem paced_drainBucket {pass : GcPass} (b nowNs n : ℕ) (hready : Ready pass t) :
    Paced nowNs t (drainBucket b nowNs pass n t) := by
  induction n generalizing t with
  | zero => exact .refl nowNs t
  | succ n ih =>
    have hpop := paced_popFront hready b nowNs
    exact hpop.trans (ih (hready.next hpop (hready.indexed.popFront b nowNs pass)))

theorem paced_advanceTick {pass : GcPass} (nowNs : ℕ) (hready : Ready pass t) :
    Paced nowNs t (t.advanceTick nowNs pass) := by
  have hdrain := paced_drainBucket (bucketForTick t.wheel.cursorTick) nowNs
    (t.wheel.buckets (bucketForTick t.wheel.cursorTick)).length hready
  exact hdrain.trans ⟨fun h r hr => ⟨r, hr, .refl r, Or.inl ⟨rfl, id⟩⟩, fun b w hw => Or.inl hw⟩

theorem paced_advance {pass : GcPass} (nowNs n : ℕ) (hready : Ready pass t) :
    Paced nowNs t (advance nowNs pass n t) := by
  induction n generalizing t with
  | zero => exact .refl nowNs t
  | succ n ih =>
    have htick := paced_advanceTick nowNs hready
    exact htick.trans (ih (hready.next htick (Indexed.advance nowNs pass 1 hready.indexed)))

theorem paced_expireStaleEntries {pass : GcPass} (hready : Ready pass t) (nowNs : ℕ) :
    Paced nowNs t (t.expireStaleEntries nowNs pass) := by
  unfold expireStaleEntries
  split_ifs
  · have hstamp : Paced nowNs t { t with lastGcNs := nowNs } := .of_eq rfl rfl
    have hobs := hstamp.trans (paced_observe _ nowNs)
    exact hobs.trans (paced_advance nowNs _ (hready.next hobs (hready.indexed.congr rfl rfl rfl rfl rfl)))
  · exact .refl nowNs t

/-! ## Storing a session -/

/-- A flow can be stored under its key: the key is no alias, and where the flow is a reverse one
no hint names its own alias. -/
def StoreClear (t : Table) (key : SessionKey) (nat : NatDecision) (isReverse : Bool) : Prop :=
  ¬t.Aliased key ∧ (isReverse = true → translatedSessionKey key nat ≠ key →
    ∀ b w, w ∈ t.wheel.buckets b → w.key ≠ translatedSessionKey key nat)

theorem StoreClear.not_aliasOf {e : SessionEntry}
    (hs : t.StoreClear key e.decision.nat e.metadata.isReverse) {b : ℕ} {w : WheelEntry} (hw : w ∈ t.wheel.buckets b) :
    ¬AliasOf ⟨key, e⟩ w.key := by
  rintro ⟨hrev, hne, halias⟩
  exact hs.2 hrev (fun heq => hne (heq.symm.trans halias)) b w hw halias.symm

theorem aliased_storeRecord {e : SessionEntry} {key' : SessionKey} (ha : (t.storeRecord ⟨key, e⟩).Aliased key') :
    t.Aliased key' ∨ AliasOf ⟨key, e⟩ key' := by
  obtain ⟨n, r', hr', ha⟩ := ha
  change (t.entries.insert _).get n = some r' at hr'
  rw [Slab.get_insert] at hr'
  split at hr'
  · obtain rfl := Option.some.inj hr'
    exact Or.inr ha
  · exact Or.inl ⟨n, r', hr', ha⟩

theorem settled_pushToWheel (hkey : r.key = key) (hr : t.recordByKey key = some (h, r)) {tick : ℕ}
    (hp : pushTick r.entry (t.wheel.observe nowNs).cursorTick nowNs = some tick) :
    Settled nowNs (t.pushToWheel key nowNs) h := by
  rw [pushToWheel_eq hr, hp]
  intro r' hr'
  change (t.entries.update h _).get h = some r' at hr'
  rw [Slab.get_update, if_pos rfl, get_of_recordByKey hr] at hr'
  obtain rfl := Option.some.inj hr'
  dsimp only
  rw [pushEntry_of_some hp]
  refine ⟨(target_of_pushTick hp) ▸ le_targetTickFor nowNs _, ?_, Or.inl rfl⟩
  subst hkey
  exact mem_buckets_push.mpr (Or.inr ⟨rfl, rfl⟩)

/-- A session without a tick, whose deadline lies beyond the first tick of the clock. -/
def Unscheduled (e : SessionEntry) : Prop := e.wheelTick = 0 ∧ e.heldWheelTick = 0 ∧ wheelTickNs ≤ e.expirationNs

/-- A session stored with a tick it already has a hint for, or with none. -/
def Startable (t : Table) (key : SessionKey) (e : SessionEntry) : Prop := t.Hinted ⟨key, e⟩ ∨ Unscheduled e

theorem target_ne_zero {nowNs expirationNs : ℕ} (hle : wheelTickNs ≤ expirationNs) :
    targetTickFor nowNs expirationNs ≠ 0 := by
  have hpos : 1 ≤ expirationNs / wheelTickNs := (Nat.one_le_div_iff (by decide)).mpr hle
  have hfar : farFutureOffset = 255 := rfl
  simp only [targetTickFor, hfar]
  generalize expirationNs / wheelTickNs = expirationTick at hpos ⊢
  generalize nowNs / wheelTickNs = nowTick
  omega

theorem pushTick_of_fresh {e : SessionEntry} (htick : e.wheelTick = 0) (hheld : e.heldWheelTick = 0)
    (hle : wheelTickNs ≤ e.expirationNs) (cursorTick nowNs : ℕ) :
    pushTick e cursorTick nowNs = some (targetTickFor nowNs e.expirationNs) := by
  simp only [pushTick, hheld, htick, ne_eq, not_true_eq_false, and_false, if_false]
  rw [if_pos (target_ne_zero hle)]

theorem keyed_storeRecord (hi : t.Indexed) (hl : t.keyToHandle.lookup key = none) (e : SessionEntry) :
    (t.storeRecord ⟨key, e⟩).Keyed := by
  have hstored := (hi.storeRecord hl e).keyed
  rw [countStored_eq] at hstored
  exact hstored

/-- A session stored under a free key, and hinted. -/
theorem Effective.storeHinted (he : t.Effective) (hi : t.Indexed) (hl : t.keyToHandle.lookup key = none)
    {e : SessionEntry} (hclear : t.StoreClear key e.decision.nat e.metadata.isReverse) {nowNs : ℕ}
    (hstart : t.Startable key e) : ((t.storeRecord ⟨key, e⟩).pushToWheel key nowNs).Effective := by
  have hkeyed := keyed_storeRecord hi hl e
  have hget : (t.storeRecord ⟨key, e⟩).entries.get t.entries.vacantKey = some ⟨key, e⟩ := by
    show (t.entries.insert _).get _ = _
    rw [Slab.get_insert, if_pos rfl]
  have hr := hkeyed.recordByKey hget
  have hown : ¬(t.storeRecord ⟨key, e⟩).Aliased key := by
    intro ha
    rcases aliased_storeRecord ha with ha | ⟨-, hne, -⟩
    · exact hclear.1 ha
    · exact hne rfl
  have hpush := paced_pushToWheel hown nowNs
  refine ⟨fun n r' hr' => ?_, fun b w hw => ?_⟩
  · obtain ⟨r, hold, hflow, hpace⟩ := hpush.session n r' hr'
    by_cases hn : n = t.entries.vacantKey
    · subst hn
      rw [hget] at hold
      obtain rfl := Option.some.inj hold
      rcases hstart with hh | ⟨htick, hheld, hle⟩
      · rcases hpace with ⟨-, hhint⟩ | ⟨-, hhint⟩
        · exact hhint hh
        · exact hhint
      · exact (settled_pushToWheel rfl hr (pushTick_of_fresh htick hheld hle _ nowNs) r' hr').2
    · have hbefore : t.entries.get n = some r := by
        change (t.entries.insert _).get n = some r at hold
        rwa [Slab.get_insert, if_neg hn] at hold
      rcases hpace with ⟨-, hhint⟩ | ⟨-, hhint⟩
      · exact hhint (he.hinted n r hbefore)
      · exact hhint
  · rcases hpush.hint b w hw with hw | hnot
    · refine hpush.not_aliased fun ha => ?_
      rcases aliased_storeRecord ha with ha | ha
      · exact he.apart b w hw ha
      · exact hclear.not_aliasOf hw ha
    · exact hnot

theorem StoreClear.paced {nat : NatDecision} {isReverse : Bool} (hs : t.StoreClear key nat isReverse)
    (hp : Paced nowNs t t') (hwheel : t'.wheel = t.wheel) : t'.StoreClear key nat isReverse := by
  refine ⟨hp.not_aliased hs.1, ?_⟩
  rw [hwheel]
  exact hs.2

theorem wheel_removeEntry (t : Table) (key : SessionKey) : (t.removeEntry key).wheel = t.wheel := by
  unfold removeEntry sessionLimitDec
  split
  · rfl
  · split
    · rfl
    · dsimp only
      split_ifs <;> rfl

theorem Effective.replaceSession (he : t.Effective) (hi : t.Indexed) {entry : ℕ → UInt64 → SessionEntry} {nat : NatDecision}
    {isReverse : Bool} (hflow : ∀ epoch id, (entry epoch id).decision.nat = nat
      ∧ (entry epoch id).metadata.isReverse = isReverse)
    (hclear : t.StoreClear key nat isReverse) (givenId : UInt64)
    (hstart : ∀ epoch id, t.Startable key (entry epoch id)) :
    (t.replaceSession key givenId nowNs entry).Effective := by
  dsimp only [Table.replaceSession]
  obtain ⟨n, hn⟩ := takeSessionId_snd (t.removeEntry key).nextEpoch givenId
  have hremoved := hi.removeEntry key
  have hfree := lookup_removeEntry hi.keyed key
  have hwheel := wheel_removeEntry t key
  have hpaced := paced_removeEntry nowNs hi.keyed key
  generalize (t.removeEntry key).nextEpoch.takeSessionId givenId = taken at hn ⊢
  have hbase : taken.2.Indexed := by
    rw [hn]
    exact hremoved.congr rfl rfl rfl rfl rfl
  have htaken : Paced nowNs t taken.2 := by
    rw [hn]
    exact hpaced.trans (.of_eq rfl rfl)
  have hsame : taken.2.wheel = t.wheel := by
    rw [hn]
    exact hwheel
  have hlookup : taken.2.keyToHandle.lookup key = none := by
    rw [hn]
    exact hfree
  have hpushed : ((taken.2.storeRecord ⟨key, entry taken.2.epochCounter taken.1⟩).pushToWheel key nowNs).Effective := by
    refine (he.paced htaken).storeHinted hbase hlookup ?_ ?_
    · obtain ⟨hnat, hrev⟩ := hflow taken.2.epochCounter taken.1
      rw [hnat, hrev]
      exact hclear.paced htaken hsame
    · rw [Startable, Hinted, Queued, hsame]
      exact hstart taken.2.epochCounter taken.1
  rw [countStored_eq]
  exact hpushed.of_eq rfl rfl

theorem Effective.installWithOrigin (he : t.Effective) (hi : t.Indexed) {req : InstallRequest}
    (hclear : t.StoreClear req.key req.decision.nat req.metadata.isReverse)
    (hlater : wheelTickNs ≤ saturatingAdd nowNs (installTimeout t.config req)) :
    (t.installWithOrigin req nowNs).Effective := by
  unfold Table.installWithOrigin
  split_ifs
  · exact he
  · exact he.replaceSession hi (fun _ _ => ⟨rfl, rfl⟩) hclear _ fun _ _ => Or.inr ⟨rfl, rfl, hlater⟩

theorem ImportRequest.storedDecision_nat (req : ImportRequest) (existing : Option SessionEntry) :
    (req.storedDecision existing).nat = req.decision.nat := by
  unfold ImportRequest.storedDecision
  split
  · rfl
  · split_ifs <;> rfl

/-- The session an import finds under its key and resends. -/
def ImportRequest.resent (req : ImportRequest) (t : Table) : Option SessionEntry :=
  (t.entryByKey req.key).filter fun e => decide (req.Resends e)

theorem unscheduled_importEntry {req : ImportRequest} (hres : req.resent t = none)
    (hlater : wheelTickNs ≤ saturatingAdd nowNs (req.timeout t.config (t.entryByKey req.key))) (epoch : ℕ) (id : UInt64) :
    Unscheduled (importEntry t.config req (t.entryByKey req.key) nowNs epoch id) := by
  unfold ImportRequest.resent at hres
  refine ⟨?_, ?_, ?_⟩
  · simp only [importEntry, hres, Option.map_none, Option.getD_none]
  · simp only [importEntry, hres, Option.map_none, Option.getD_none]
  · simp only [SessionEntry.expirationNs, importEntry, hres, Option.map_none, Option.getD_none]
    exact hlater

theorem Effective.upsertSyncedWithOrigin (he : t.Effective) (hi : t.Indexed) {req : ImportRequest}
    (hclear : t.StoreClear req.key req.decision.nat req.metadata.isReverse)
    (hlater : req.resent t = none → wheelTickNs ≤ saturatingAdd nowNs (req.timeout t.config (t.entryByKey req.key))) :
    (t.upsertSyncedWithOrigin req nowNs).Effective := by
  unfold Table.upsertSyncedWithOrigin
  split_ifs
  · exact he
  · refine he.replaceSession hi (fun _ _ => ⟨req.storedDecision_nat _, rfl⟩) hclear _ fun epoch id => ?_
    cases hres : req.resent t with
    | none => exact Or.inr (unscheduled_importEntry hres (hlater hres) epoch id)
    | some kept =>
      -- the hint of the session that makes room is still queued, under the same key
      obtain ⟨hfound, -⟩ := Option.filter_eq_some_iff.mp hres
      obtain ⟨h, r, hr, rfl⟩ := entryByKey_eq_some hfound
      have hkey := key_of_not_aliased hclear.1 hr
      have hh := he.hinted h r (get_of_recordByKey hr)
      left
      unfold ImportRequest.resent at hres
      refine ⟨?_, ?_⟩
      · simp only [importEntry, hres, Option.map_some, Option.getD_some]
        rw [← hkey]
        exact hh.1
      · simp only [Tidy, importEntry, hres, Option.map_some, Option.getD_some]
        exact hh.2

/-! ## Which sessions change -/

/-- Only sessions whose own key is in `K` change. -/
def Frame (K : SessionKey → Prop) (t t' : Table) : Prop :=
  ∀ n r, t.entries.get n = some r → ¬K r.key → t'.entries.get n = some r

variable {K : SessionKey → Prop}

theorem Frame.trans (h : Frame K t t') (h' : Frame K t' t'') : Frame K t t'' :=
  fun n r hr hout => h' n r (h n r hr hout) hout

theorem frame_of_eq (hentries : t'.entries = t.entries) : Frame K t t' := by
  intro n r hr _
  rw [hentries]
  exact hr

theorem frame_updateEntry (hg : t.entries.get h = some r) (hin : K r.key) (f : SessionEntry → SessionEntry) :
    Frame K t (t.updateEntry h f) := by
  intro n r' hr' hout
  show (t.entries.update h _).get n = some r'
  rw [Slab.get_update]
  split
  · next heq =>
    subst heq
    rw [hg] at hr'
    obtain rfl := Option.some.inj hr'
    exact absurd hin hout
  · exact hr'

/-- A key that is no alias leads to the session that is its own. -/
theorem frame_updateByKey (hclear : ¬t.Aliased key) (hin : K key) (f : SessionEntry → SessionEntry) :
    Frame K t (t.updateByKey key f) := by
  unfold updateByKey
  split
  · exact frame_of_eq rfl
  · next h r hr =>
    have hkey := key_of_not_aliased hclear hr
    exact frame_updateEntry (get_of_recordByKey hr) (hkey ▸ hin) f

theorem frame_pushToWheel (hclear : ¬t.Aliased key) (hin : K key) (nowNs : ℕ) :
    Frame K t (t.pushToWheel key nowNs) := by
  cases hr : t.recordByKey key with
  | none =>
    rw [pushToWheel_of_none hr]
    exact frame_of_eq rfl
  | some p =>
    obtain ⟨h, r⟩ := p
    have hkey := key_of_not_aliased hclear hr
    rw [pushToWheel_eq hr]
    exact (frame_updateEntry (get_of_recordByKey hr) (hkey ▸ hin) _).trans (frame_of_eq rfl)

theorem frame_propagate {matchedKey : SessionKey} {p : TcpStatePropagation}
    (hclear : ¬t.Aliased (reverseSessionKey matchedKey p.nat)) (hin : K (reverseSessionKey matchedKey p.nat)) (nowNs : ℕ) :
    Frame K t (t.propagateTcpStateToCompanion matchedKey nowNs p) := by
  unfold propagateTcpStateToCompanion
  dsimp only
  split
  · exact frame_of_eq rfl
  · have hupd := paced_updateByKey nowNs t (reverseSessionKey matchedKey p.nat)
      (keepsHint_propagateEntry t.config (reverseSessionKey matchedKey p.nat).protocol nowNs p)
    have hframe := frame_updateByKey hclear hin
      (propagateEntry t.config (reverseSessionKey matchedKey p.nat).protocol nowNs p)
    split_ifs
    · exact hframe.trans (frame_pushToWheel (hupd.not_aliased hclear) hin nowNs)
    · exact hframe

/-! ## Rewriting a session in place -/

theorem UpdatePacket.entry_ticks (p : UpdatePacket) (config : Config) (origin : SessionOrigin) (e : SessionEntry) :
    (p.entry config origin e).wheelTick = e.wheelTick ∧ (p.entry config origin e).heldWheelTick = e.heldWheelTick := by
  unfold UpdatePacket.entry UpdatePacket.retimed UpdatePacket.handshaken
  split_ifs <;> exact ⟨rfl, rfl⟩

theorem refreshedEntry_ticks (config : Config) (req : RefreshRequest) (nowNs : ℕ) (e : SessionEntry) :
    (refreshedEntry config req nowNs e).wheelTick = e.wheelTick
      ∧ (refreshedEntry config req nowNs e).heldWheelTick = e.heldWheelTick := by
  unfold refreshedEntry
  split
  · exact UpdatePacket.entry_ticks _ config _ (rewriteEntry req nowNs e)
  · exact ⟨rfl, rfl⟩

/-- A rewriting that may make another flow of the session, but keeps its tick. -/
theorem Effective.updateEntry (he : t.Effective) (hg : t.entries.get h = some r) {f : SessionEntry → SessionEntry}
    (htick : (f r.entry).wheelTick = r.entry.wheelTick) (hheld : (f r.entry).heldWheelTick = r.entry.heldWheelTick)
    (hnew : ∀ b w, w ∈ t.wheel.buckets b → ¬AliasOf { r with entry := f r.entry } w.key) :
    (t.updateEntry h f).Effective := by
  refine ⟨fun n r' hr' => ?_, fun b w hw ha => ?_⟩
  · change (t.entries.update h _).get n = some r' at hr'
    rw [Slab.get_update] at hr'
    split at hr'
    · rw [hg] at hr'
      obtain rfl := Option.some.inj hr'
      have hh := he.hinted h r hg
      refine ⟨?_, ?_⟩
      · show WheelEntry.mk r.key (f r.entry).wheelTick ∈ t.wheel.buckets _
        rw [htick]
        exact hh.1
      · rw [Tidy, htick, hheld]
        exact hh.2
    · exact he.hinted n r' hr'
  · obtain ⟨n, r', hr', ha⟩ := ha
    change (t.entries.update h _).get n = some r' at hr'
    rw [Slab.get_update] at hr'
    split at hr'
    · rw [hg] at hr'
      obtain rfl := Option.some.inj hr'
      exact hnew b w hw ha
    · exact he.apart b w hw ⟨n, r', hr', ha⟩

/-- The rewritten session has no alias a hint names, and where the companion is told, its key is
no alias once the session is rewritten. -/
def RefreshClear (t : Table) (req : RefreshRequest) (nowNs : ℕ) : Prop :=
  ∀ h old, t.entries.get h = some ⟨req.key, old⟩ →
    (∀ b w, w ∈ t.wheel.buckets b → ¬AliasOf ⟨req.key, refreshedEntry t.config req nowNs old⟩ w.key)
      ∧ ∀ p, refreshPropagation req nowNs old = some p →
        ¬(t.updateEntry h (refreshedEntry t.config req nowNs)).Aliased (reverseSessionKey req.key p.nat)

theorem refreshPropagation_nat {req : RefreshRequest} {nowNs : ℕ} {old : SessionEntry} {p : TcpStatePropagation}
    (hp : refreshPropagation req nowNs old = some p) : p.nat = req.decision.nat := by
  unfold refreshPropagation at hp
  split at hp
  · dsimp only at hp
    split_ifs at hp
    rw [← Option.some.inj hp]
  · cases hp

/-- A rewritten session, then what is told and scheduled: hints and sessions keep their pace from
the rewritten table on, and only the session and its companion change. -/
theorem Effective.refreshRecord_told (he : t.Effective) {req : RefreshRequest} {nowNs : ℕ} {old : SessionEntry}
    (hg : t.entries.get h = some ⟨req.key, old⟩) (hclear : t.RefreshClear req nowNs) (hin : K req.key)
    (hin' : K (reverseSessionKey req.key req.decision.nat)) :
    ∃ rewritten : Table, rewritten.entries = (t.updateEntry h (refreshedEntry t.config req nowNs)).entries
      ∧ rewritten.Effective ∧ Paced nowNs rewritten (t.refreshRecord req h nowNs old)
      ∧ Frame K rewritten (t.refreshRecord req h nowNs old) := by
  obtain ⟨hnew, hcompanion⟩ := hclear h old hg
  obtain ⟨htick, hheld⟩ := refreshedEntry_ticks t.config req nowNs old
  unfold Table.refreshRecord Table.finishRefreshInPlace
  dsimp only
  generalize (if reindexes req old then
      removeOwnerRgIndexEntry
        (removeForwardNatIndexParts t.index req.key h old.decision.nat old.metadata.isReverse)
        old.metadata.ownerRgId h
    else t.index) = index
  have hrewritten : ({ t with index := index }.updateEntry h (refreshedEntry t.config req nowNs)).Effective := by
    have hbase : Effective { t with index := index } := he.of_eq rfl rfl
    exact hbase.updateEntry hg htick hheld hnew
  have hentries : ({ t with index := index }.updateEntry h (refreshedEntry t.config req nowNs)).entries
      = (t.updateEntry h (refreshedEntry t.config req nowNs)).entries := rfl
  generalize { t with index := index }.updateEntry h (refreshedEntry t.config req nowNs) = rewritten
    at hrewritten hentries ⊢
  have hown : ¬rewritten.Aliased req.key := by
    have hget : rewritten.entries.get h = some ⟨req.key, refreshedEntry t.config req nowNs old⟩ := by
      rw [hentries]
      show (t.entries.update h _).get h = _
      rw [Slab.get_update, if_pos rfl, hg]
      rfl
    exact hrewritten.not_aliased hget
  have hfinish : ∀ (told : Table) counts index, Paced nowNs rewritten told → Frame K rewritten told →
      Paced nowNs rewritten ({ told with srcCounts := counts, index := index }.pushToWheel req.key nowNs)
        ∧ Frame K rewritten ({ told with srcCounts := counts, index := index }.pushToWheel req.key nowNs) := by
    intro told counts index hpaced hframe
    have hindexed : Paced nowNs rewritten { told with srcCounts := counts, index := index } :=
      hpaced.trans (.of_eq rfl rfl)
    have hnot := hindexed.not_aliased hown
    exact ⟨hindexed.trans (paced_pushToWheel hnot nowNs),
      (hframe.trans (frame_of_eq rfl)).trans (frame_pushToWheel hnot hin nowNs)⟩
  refine ⟨rewritten, hentries, hrewritten, ?_⟩
  cases hp : refreshPropagation req nowNs old with
  | none => exact hfinish _ _ _ (.refl nowNs rewritten) (frame_of_eq rfl)
  | some p =>
    have hnot : ¬rewritten.Aliased (reverseSessionKey req.key p.nat) := by
      rw [Aliased, hentries]
      exact hcompanion p hp
    have hinside : K (reverseSessionKey req.key p.nat) := by
      rw [refreshPropagation_nat hp]
      exact hin'
    exact hfinish _ _ _ (paced_propagate hnot nowNs) (frame_propagate hnot hinside nowNs)

theorem Effective.refreshInPlace (he : t.Effective) (hk : t.Keyed) {req : RefreshRequest} {nowNs : ℕ}
    (hclear : t.RefreshClear req nowNs) : (t.refreshInPlace req nowNs).Effective := by
  unfold Table.refreshInPlace
  split
  · exact he
  · next h hl =>
    obtain ⟨old, hg⟩ := hk.get hl
    simp only [hg, ne_eq, not_true_eq_false, if_false]
    split_ifs
    · exact he.of_eq rfl rfl
    · exact he
    · obtain ⟨rewritten, -, hrewritten, hpaced, -⟩ :=
        he.refreshRecord_told (K := fun _ => True) hg hclear trivial trivial
      exact hrewritten.paced hpaced

theorem frame_refreshInPlace (he : t.Effective) (hk : t.Keyed) {req : RefreshRequest} {nowNs : ℕ}
    (hclear : t.RefreshClear req nowNs) (hin : K req.key) (hin' : K (reverseSessionKey req.key req.decision.nat)) :
    Frame K t (t.refreshInPlace req nowNs) := by
  unfold Table.refreshInPlace
  split
  · exact frame_of_eq rfl
  · next h hl =>
    obtain ⟨old, hg⟩ := hk.get hl
    simp only [hg, ne_eq, not_true_eq_false, if_false]
    split_ifs
    · exact frame_of_eq rfl
    · exact frame_of_eq rfl
    · obtain ⟨rewritten, hentries, -, -, hframe⟩ := he.refreshRecord_told hg hclear hin hin'
      have hstored := frame_updateEntry hg hin (refreshedEntry t.config req nowNs)
      exact (hstored.trans (frame_of_eq hentries)).trans hframe

/-! ## Every history -/

/-- What `promote_synced_with_origin` asks for. -/
def promoteRequest (key : SessionKey) (decision : SessionDecision) (metadata : SessionMetadata) (origin : SessionOrigin)
    (packet : UpdatePacket) : RefreshRequest :=
  ⟨key, decision, metadata,
    .update true origin { packet with tcpFlags := if isClosing packet.tcpFlags then 0 else packet.tcpFlags }⟩

/-- The event keeps aliases and hints apart. No key it stores, touches or tells of something is
the alias of a session under another key, no session it stores or rewrites has an alias that a
hint names, and a session it stores anew does not come due in the first tick of the clock. -/
def KeepsApart (t : Table) (ev : Event) : Prop :=
  match ev.op with
  | .install req =>
    t.StoreClear req.key req.decision.nat req.metadata.isReverse
      ∧ wheelTickNs ≤ saturatingAdd ev.nowNs (installTimeout t.config req)
  | .importSynced req =>
    t.StoreClear req.key req.decision.nat req.metadata.isReverse
      ∧ (req.resent t = none →
        wheelTickNs ≤ saturatingAdd ev.nowNs (req.timeout t.config (t.entryByKey req.key)))
  | .refresh req => t.RefreshClear req ev.nowNs
  | .promote key decision metadata origin packet =>
    t.RefreshClear (promoteRequest key decision metadata origin packet) ev.nowNs
  | .touch key => ¬t.Aliased key
  | .hit packet => packet.Clear t
  | .complete matchedKey nat _ => ¬t.Aliased matchedKey ∧ ¬t.Aliased (reverseSessionKey matchedKey nat)
  | .restamp key _ => ¬t.Aliased key
  | .expire pass => PassClear pass t
  | _ => True

theorem effective_new (config : Config) : (new config).Effective :=
  ⟨fun h r hr => by simp [new] at hr, fun b w hw => by simp [new, SessionWheel.new] at hw⟩

theorem Effective.step (he : t.Effective) (hi : t.Indexed) {ev : Event} (hev : t.KeepsApart ev) :
    (t.step ev).Effective := by
  obtain ⟨nowNs, op⟩ := ev
  cases op with
  | install req => exact he.installWithOrigin hi hev.1 hev.2
  | importSynced req => exact he.upsertSyncedWithOrigin hi hev.1 hev.2
  | refresh req => exact he.refreshInPlace hi.keyed hev
  | promote key decision metadata origin packet => exact he.refreshInPlace hi.keyed hev
  | revalidate key disposition ownerRgId newEgressZone =>
    exact he.paced (paced_revalidate nowNs t key disposition ownerRgId newEgressZone)
  | rebindEgress key newEgressZone => exact he.paced (paced_rebindForwardEgressZone nowNs t key newEgressZone)
  | rebindPolicy key policyId policyCounterIdx zones =>
    exact he.paced (paced_rebindPair nowNs t key zones (keepsHint_bindPolicy policyId policyCounterIdx))
  | rebindZones key zones => exact he.paced (paced_rebindPair nowNs t key zones fun _ => ⟨rfl, rfl, rfl, rfl⟩)
  | demote ownerRgId => exact he.paced (paced_demoteOwnerRg nowNs t ownerRgId)
  | delete key => exact he.paced (paced_removeEntry nowNs hi.keyed key)
  | touch key => exact he.paced (paced_touch hev nowNs)
  | hit packet => exact he.paced (paced_lookup he hev nowNs)
  | complete matchedKey nat tcpFlags => exact he.paced (paced_completeHandshake hev.1 hev.2 nowNs tcpFlags)
  | restamp key epoch => exact he.paced (paced_restamp hev nowNs epoch)
  | expire pass => exact he.paced (paced_expireStaleEntries ⟨hi, he, hev⟩ nowNs)

theorem run_effective (config : Config) {history : List Event}
    (h : Runs.EachStep step (new config) KeepsApart history) : (run config history).Effective := by
  have hboth := Runs.run_invariant_of (P := fun t => t.Indexed ∧ t.Effective)
    ⟨indexed_new config, effective_new config⟩ (fun t ev hev ht => ⟨ht.1.step ev, ht.2.step ht.1 hev⟩) h
  exact hboth.2

/-! ## What an event changes -/

theorem frame_completeHandshake {matchedKey : SessionKey} {nat : NatDecision} (hclear : ¬t.Aliased matchedKey)
    (hcompanion : ¬t.Aliased (reverseSessionKey matchedKey nat)) (hin : K matchedKey)
    (hin' : K (reverseSessionKey matchedKey nat)) (nowNs : ℕ) (tcpFlags : UInt8) :
    Frame K t (t.completeHandshake matchedKey nat nowNs tcpFlags) := by
  have hupd := paced_updateByKey nowNs t matchedKey
    (keepsHint_completeEntry t.config matchedKey.protocol tcpFlags nowNs)
  have htold := hupd.trans (paced_propagate (p := ⟨nat, false, false, false, false, true⟩)
    (hupd.not_aliased hcompanion) nowNs)
  refine (frame_updateByKey hclear hin _).trans (Frame.trans
    (frame_propagate (p := ⟨nat, false, false, false, false, true⟩) (hupd.not_aliased hcompanion) hin' nowNs) ?_)
  exact frame_pushToWheel (htold.not_aliased hclear) hin nowNs

theorem frame_lookup (he : t.Effective) {hit : PacketHit} (hclear : hit.Clear t) (hr : t.recordByKey hit.key = some (h, r))
    (hin : K r.key) (htold : hit.propagates r.entry = true → K (reverseSessionKey r.key r.entry.decision.nat))
    (hprogress : hit.propagates r.entry = false → ∀ matchedKey nat, hit.progress = some (matchedKey, nat) →
      K matchedKey ∧ K (reverseSessionKey matchedKey nat)) (nowNs : ℕ) : Frame K t (t.lookup hit nowNs) := by
  obtain ⟨hcompanion, hmatched⟩ := hclear h r hr
  have hg := get_of_recordByKey hr
  have hown := he.not_aliased hg
  have hupd := paced_updateEntry nowNs t h (hit.keepsHint_entry t.config nowNs)
  have hframe := frame_updateEntry hg hin (hit.entry t.config nowNs)
  simp only [lookup, hr]
  split_ifs with hlapsed hp
  · exact frame_of_eq rfl
  · have hpaced := hupd.trans (paced_propagate (p := hit.propagation r.entry) (hupd.not_aliased (hcompanion hp)) nowNs)
    refine (hframe.trans (frame_propagate (p := hit.propagation r.entry) (hupd.not_aliased (hcompanion hp))
      (htold hp) nowNs)).trans ?_
    exact frame_pushToWheel (hpaced.not_aliased hown) hin nowNs
  · split
    · next matchedKey nat _ hsome =>
      obtain ⟨hclear₁, hclear₂⟩ := hmatched matchedKey nat hsome
      obtain ⟨hin₁, hin₂⟩ := hprogress (Bool.eq_false_iff.mpr hp) matchedKey nat hsome
      have hpaced := hupd.trans (paced_completeHandshake (hupd.not_aliased hclear₁) (hupd.not_aliased hclear₂) nowNs
        hit.tcpFlags)
      refine (hframe.trans (frame_completeHandshake (hupd.not_aliased hclear₁) (hupd.not_aliased hclear₂) hin₁ hin₂
        nowNs hit.tcpFlags)).trans ?_
      exact frame_pushToWheel (hpaced.not_aliased hown) hin nowNs
    · exact hframe.trans (frame_pushToWheel (hupd.not_aliased hown) hin nowNs)

/-- The sessions an event that propagates state is about, by their own keys: the one it found, the
one that tells, and the companion that is told. -/
def toldKeys (t : Table) (ev : Event) : Option (List SessionKey) :=
  match ev.op with
  | .hit packet =>
    (t.recordByKey packet.key).map fun (_, r) =>
      let source := if packet.propagates r.entry then some (r.key, r.entry.decision.nat) else packet.progress
      r.key :: source.elim [] fun (key, nat) => [key, reverseSessionKey key nat]
  | .complete matchedKey nat _ => some [matchedKey, reverseSessionKey matchedKey nat]
  | .refresh req => some [req.key, reverseSessionKey req.key req.decision.nat]
  | .promote key decision _ _ _ => some [key, reverseSessionKey key decision.nat]
  | _ => none

theorem frame_step (he : t.Effective) (hk : t.Keyed) {ev : Event} (hev : t.KeepsApart ev) {keys : List SessionKey}
    (hkeys : t.toldKeys ev = some keys) : Frame (· ∈ keys) t (t.step ev) := by
  obtain ⟨nowNs, op⟩ := ev
  cases op with
  | hit packet =>
    obtain ⟨⟨h, r⟩, hr, rfl⟩ := Option.map_eq_some_iff.mp hkeys
    refine frame_lookup he hev hr (by simp) (fun hp => ?_) (fun hp matchedKey nat hsome => ?_) nowNs
    · simp [hp]
    · simp [hp, hsome]
  | complete matchedKey nat tcpFlags =>
    obtain rfl := Option.some.inj hkeys
    exact frame_completeHandshake hev.1 hev.2 (by simp) (by simp) nowNs tcpFlags
  | refresh req =>
    obtain rfl := Option.some.inj hkeys
    exact frame_refreshInPlace he hk hev (by simp) (by simp)
  | promote key decision metadata origin packet =>
    obtain rfl := Option.some.inj hkeys
    exact frame_refreshInPlace he hk hev (by simp [promoteRequest]) (by simp [promoteRequest])
  | _ => cases hkeys

/-- What is left when the session behind a handle is removed by its own key. -/
theorem get_removeEntry (hk : t.Keyed) (hg : t.entries.get h = some r) (n : ℕ) :
    (t.removeEntry r.key).entries.get n = if n = h then none else t.entries.get n := by
  have hl : t.keyToHandle.lookup r.key = some h := (hk r.key h).mpr ⟨r, hg, rfl⟩
  rw [removeEntry_eq hl hg]
  exact Slab.get_remove t.entries h n

end

/-- **Every hint removes the session it was queued for**, as long as every event keeps aliases and
hints apart. A hint with the tick of the session its key leads to names a key under which that
session, and no other, is removed; every session has such a hint; and an event that propagates
state changes no session but the one it found, the one that tells and the one whose own key is
the companion's. -/
theorem run_hints_remove (config : Config) {history : List Event}
    (hapart : Runs.EachStep step (new config) KeepsApart history) :
    let t := run config history
    (∀ b w h r, w ∈ t.wheel.buckets b → t.recordByKey w.key = some (h, r) → r.entry.wheelTick = w.scheduledTick →
        ∀ n, (t.removeEntry w.key).entries.get n = if n = h then none else t.entries.get n)
      ∧ (∀ h r, t.entries.get h = some r →
        ∃ w, t.Queued w ∧ t.recordByKey w.key = some (h, r) ∧ ¬StaleHint r.entry w.scheduledTick)
      ∧ ∀ ev keys, t.KeepsApart ev → t.toldKeys ev = some keys →
        ∀ n r, t.entries.get n = some r → r.key ∉ keys → (t.step ev).entries.get n = some r := by
  intro t
  have hi : t.Indexed := run_indexed config history
  have he : t.Effective := run_effective config hapart
  refine ⟨fun b w h r hw hr _ n => ?_, fun h r hr => ?_, fun ev keys hev hkeys => frame_step he hi.keyed hev hkeys⟩
  · have hkey := key_of_not_aliased (he.apart b w hw) hr
    rw [← hkey]
    exact get_removeEntry hi.keyed (get_of_recordByKey hr) n
  · obtain ⟨hqueued, htidy⟩ := he.hinted h r hr
    exact ⟨⟨r.key, r.entry.wheelTick⟩, hqueued, hi.keyed.recordByKey hr, htidy.not_stale⟩

/-! ### A translated session whose tuple is used again -/

def plainConfig : Config := ⟨.default, fun _ => none, 100, fun _ => false, 0⟩

def tcpKey (src dst : BitVec 32) (srcPort dstPort : UInt16) : SessionKey :=
  ⟨afInet, protoTcp, .v4 src, .v4 dst, srcPort, dstPort, .none, 0⟩

/-- The acknowledgement of an open connection installs a session of its own. -/
def flowRequest (key : SessionKey) (nat : NatDecision) (isReverse : Bool) : InstallRequest where
  key := key
  decision := ⟨.forwardCandidate, nat, 0, 0⟩
  metadata := ⟨1, 2, 0, 0, 0, false, isReverse, none, 0, 0⟩
  origin := if isReverse then .reverseFlow else .forwardFlow
  protocol := protoTcp
  tcpFlags := 0x10
  sessionId := none
  reservedSessionSlots := 0
  pmechConflict := false

/-- From 10 to 20, with the source translated to 30, and the replies. Then the same tuple without
translation, and its FIN. -/
def reusedTuple : List Event :=
  [⟨0, .install (flowRequest (tcpKey 10 20 1000 80) { NatDecision.default with rewriteSrc := some (.v4 30) } false)⟩,
    ⟨0, .install (flowRequest (tcpKey 20 30 80 1000) { NatDecision.default with rewriteDst := some (.v4 10) } true)⟩,
    ⟨0, .install (flowRequest (tcpKey 10 20 1000 80) .default false)⟩,
    ⟨0, .hit ⟨tcpKey 10 20 1000 80, 0x11, 0, false, none⟩⟩]

set_option maxRecDepth 8192 in
/-- The FIN reaches the old replies by their alias, which is the companion's key and not theirs.
Their session is closing now, the hint with its tick names the alias, and removing the alias
removes nothing. -/
theorem reusedTuple_strands :
    let t := run plainConfig reusedTuple
    let stranded := tcpKey 20 30 80 1000
    let companion := reverseSessionKey (tcpKey 10 20 1000 80) .default
    (⟨companion, 30⟩ ∈ t.wheel.buckets 30
      ∧ (t.recordByKey companion).map (fun p => (p.2.key, p.2.entry.wheelTick)) = some (stranded, 30)
      ∧ (t.removeEntry companion).sessionAt stranded = t.sessionAt stranded
      ∧ (t.sessionAt stranded).isSome = true)
      ∧ (⟨stranded, 30⟩ : WheelEntry) ∉ t.wheel.buckets (bucketForTick 30)
      ∧ stranded ≠ companion
      ∧ (run plainConfig (reusedTuple.take 3)).sessionAt stranded ≠ t.sessionAt stranded := by
  decide +kernel

/-- A session that is installed and touched. -/
def touchedFlow : List Event :=
  [⟨0, .install (flowRequest (tcpKey 10 20 1000 80) .default false)⟩, ⟨5, .touch (tcpKey 10 20 1000 80)⟩]

theorem touchedFlow_keepsApart : Runs.EachStep step (new plainConfig) KeepsApart touchedFlow := by
  refine Runs.EachStep.cons ⟨⟨?_, fun hrev => ?_⟩, ?_⟩ (Runs.EachStep.cons ?_ Runs.EachStep.nil)
  · decide +kernel
  · cases hrev
  · decide +kernel
  · show ¬Aliased _ _
    decide +kernel

theorem touchedFlow_hint_removes :
    ∃ h r w, (run plainConfig touchedFlow).entries.get h = some r ∧ (run plainConfig touchedFlow).Queued w
      ∧ (run plainConfig touchedFlow).recordByKey w.key = some (h, r) ∧ ¬StaleHint r.entry w.scheduledTick := by
  obtain ⟨r, hr⟩ : ∃ r, (run plainConfig touchedFlow).entries.get 0 = some r :=
    Option.isSome_iff_exists.mp (by decide +kernel)
  obtain ⟨w, hqueued, hfound, hfresh⟩ := (run_hints_remove plainConfig touchedFlow_keepsApart).2.1 0 r hr
  exact ⟨0, r, w, hr, hqueued, hfound, hfresh⟩

end Table

end Xpf.Sessions
