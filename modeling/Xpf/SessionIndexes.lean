/-
The secondary maps of the session table and the session counts are exact.

The maps and the counts see little of a session: the key it is stored under, its NAT decision,
its direction, its owner group, and what it is charged to. Most operations leave that view of
every session as it is and only retime sessions (`Retimed`); what remains is storing a session,
removing one, and rewriting one in place, and each of these takes the old view out of the maps
and puts the new one in.
-/
import Xpf.SessionExpiry

set_option autoImplicit false

namespace Xpf.Sessions

open Xpf.Handles

/-! ## What the maps see -/

/-- What the secondary maps and the counts see of a session. -/
structure View where
  key : SessionKey
  nat : NatDecision
  isReverse : Bool
  ownerRgId : Int32
  charge : Option (UInt32 × IpAddr)

/-- The zone and source a session is counted for. -/
def Config.charge (config : Config) (key : SessionKey) (e : SessionEntry) : Option (UInt32 × IpAddr) :=
  if config.sessionLimitCounted key e.origin e.metadata.isReverse then some (e.metadata.ingressZone, key.srcIp) else none

def Config.view (config : Config) (r : SessionRecord) : View :=
  ⟨r.key, r.entry.decision.nat, r.entry.metadata.isReverse, r.entry.metadata.ownerRgId, config.charge r.key r.entry⟩

/-- The keys of a session in the maps that follow its NAT decision, direction and owner. -/
def View.natKeys (v : View) : List IndexKey :=
  Table.natIndexKeys v.key v.nat v.isReverse ++ Table.replyAliasIndexKeys v.key v.nat v.isReverse
    ++ Table.l3ReverseIndexKeys v.key v.nat v.isReverse ++ Table.ownerRgIndexKeys v.ownerRgId

/-- A session derives a key of the secondary maps. -/
def View.Derives (v : View) (k : IndexKey) : Prop := k = .bareTuple v.key.bareTuple ∨ k ∈ v.natKeys

section

variable {index : HandleIndex IndexKey} {v : View} {k : IndexKey} {h h' : ℕ}

variable {key : SessionKey} {nat : NatDecision} {isReverse : Bool} {ownerRgId : Int32} {b : BareSessionTuple}

@[simp] theorem bareTuple_notMem_natIndexKeys : IndexKey.bareTuple b ∉ Table.natIndexKeys key nat isReverse := by
  unfold Table.natIndexKeys
  split_ifs <;> simp

@[simp] theorem bareTuple_notMem_replyAliasIndexKeys :
    IndexKey.bareTuple b ∉ Table.replyAliasIndexKeys key nat isReverse := by
  unfold Table.replyAliasIndexKeys
  split
  · split_ifs <;> simp
  · simp

@[simp] theorem bareTuple_notMem_l3ReverseIndexKeys :
    IndexKey.bareTuple b ∉ Table.l3ReverseIndexKeys key nat isReverse := by
  unfold Table.l3ReverseIndexKeys
  split <;> simp

@[simp] theorem bareTuple_notMem_ownerRgIndexKeys : IndexKey.bareTuple b ∉ Table.ownerRgIndexKeys ownerRgId := by
  unfold Table.ownerRgIndexKeys
  split_ifs <;> simp

@[simp] theorem bareTuple_notMem_removedNatIndexKeys :
    IndexKey.bareTuple b ∉ Table.removedNatIndexKeys key nat isReverse := by
  unfold Table.removedNatIndexKeys
  split_ifs <;> simp

theorem View.bareTuple_notMem_natKeys : IndexKey.bareTuple b ∉ v.natKeys := by simp [View.natKeys]

/-- Indexing a session adds its handle under its keys and nothing else. -/
theorem mem_indexForwardNatKeyParts :
    h' ∈ (Table.indexForwardNatKeyParts index v.key h v.nat v.isReverse v.ownerRgId).members k ↔
      h' ∈ index.members k ∨ (h' = h ∧ k ∈ v.natKeys) := by
  rw [Table.indexForwardNatKeyParts, HandleIndex.mem_foldl_push, View.natKeys]
  simp

/-- The session's handle is out of the maps. -/
def deindexed (index : HandleIndex IndexKey) (v : View) (h : ℕ) : HandleIndex IndexKey :=
  Table.removeOwnerRgIndexEntry (Table.removeForwardNatIndexParts index v.key h v.nat v.isReverse) v.ownerRgId h

theorem mem_deindexed_of_ne (hne : h' ≠ h) : h' ∈ (deindexed index v h).members k ↔ h' ∈ index.members k := by
  rw [deindexed, Table.removeOwnerRgIndexEntry, HandleIndex.mem_foldl_remove, Table.removeForwardNatIndexParts,
    HandleIndex.mem_foldl_remove]
  simp [hne]

/-- Whatever key adding a session asks for, removing it asks for too. -/
theorem View.removed_of_mem_natKeys (hk : k ∈ v.natKeys) :
    k ∈ Table.removedNatIndexKeys v.key v.nat v.isReverse ∨ k ∈ Table.ownerRgIndexKeys v.ownerRgId := by
  simp only [View.natKeys, List.mem_append] at hk
  rcases hk with ((hk | hk) | hk) | hk
  · left
    unfold Table.natIndexKeys at hk
    unfold Table.removedNatIndexKeys
    split at hk <;> split_ifs at hk ⊢ <;> simp_all
    all_goals rcases hk with rfl | rfl | rfl <;> simp
  · left
    unfold Table.removedNatIndexKeys
    cases hrev : v.isReverse
    · simp [hrev ▸ hk]
    · rw [hrev] at hk
      simp [Table.replyAliasIndexKeys] at hk
  · left
    unfold Table.removedNatIndexKeys
    cases hrev : v.isReverse
    · simp [hrev ▸ hk]
    · rw [hrev] at hk
      simp [Table.l3ReverseIndexKeys] at hk
  · exact Or.inr hk

theorem notMem_deindexed (hk : k ∈ v.natKeys) : h ∉ (deindexed index v h).members k := by
  rw [deindexed, Table.removeOwnerRgIndexEntry, HandleIndex.mem_foldl_remove, Table.removeForwardNatIndexParts,
    HandleIndex.mem_foldl_remove]
  rintro ⟨⟨-, hnat⟩, howner⟩
  rcases View.removed_of_mem_natKeys hk with hmem | hmem
  · exact hnat ⟨rfl, k, hmem, rfl⟩
  · exact howner ⟨rfl, k, hmem, rfl⟩

theorem mem_of_mem_deindexed (hmem : h' ∈ (deindexed index v h).members k) : h' ∈ index.members k := by
  rw [deindexed, Table.removeOwnerRgIndexEntry, HandleIndex.mem_foldl_remove, Table.removeForwardNatIndexParts,
    HandleIndex.mem_foldl_remove] at hmem
  exact hmem.1.1

/-- The bare tuple's map is not touched. -/
theorem mem_deindexed_bareTuple :
    h' ∈ (deindexed index v h).members (.bareTuple b) ↔ h' ∈ index.members (.bareTuple b) := by
  rw [deindexed, Table.removeOwnerRgIndexEntry, HandleIndex.mem_foldl_remove, Table.removeForwardNatIndexParts,
    HandleIndex.mem_foldl_remove]
  simp

end

/-! ## The invariant -/

namespace Table

variable {t t' t'' : Table}

/-- The map of keys holds every record under its key, and nothing else. -/
def Keyed (t : Table) : Prop :=
  ∀ key h, t.keyToHandle.lookup key = some h ↔ ∃ r, t.entries.get h = some r ∧ r.key = key

/-- Every bucket of the secondary maps holds the handles of the sessions that derive its key. -/
def IndexExact (t : Table) : Prop := t.index.Exact t.entries fun r k => (t.config.view r).Derives k

/-- Every count is the number of sessions charged to its zone and source. -/
def CountExact (t : Table) : Prop :=
  ∀ c, t.srcCounts.get c = t.entries.count fun r => decide ((t.config.view r).charge = some c)

structure Indexed (t : Table) : Prop where
  keyed : t.Keyed
  index : t.IndexExact
  count : t.CountExact

/-! ## Retiming -/

/-- No session has come, gone, or changed in what the maps see of it. -/
structure Retimed (t t' : Table) : Prop where
  config : t'.config = t.config
  keyToHandle : t'.keyToHandle = t.keyToHandle
  index : t'.index = t.index
  srcCounts : t'.srcCounts = t.srcCounts
  view : ∀ h, (t'.entries.get h).map t.config.view = (t.entries.get h).map t.config.view
  count : ∀ p : View → Bool, t'.entries.count (fun r => p (t.config.view r)) = t.entries.count fun r => p (t.config.view r)

namespace Retimed

theorem refl (t : Table) : Retimed t t := ⟨rfl, rfl, rfl, rfl, fun _ => rfl, fun _ => rfl⟩

theorem trans (h : Retimed t t') (h' : Retimed t' t'') : Retimed t t'' where
  config := h'.config.trans h.config
  keyToHandle := h'.keyToHandle.trans h.keyToHandle
  index := h'.index.trans h.index
  srcCounts := h'.srcCounts.trans h.srcCounts
  view := fun n => by
    rw [← h.view n, ← h.config]
    exact h'.view n
  count := fun p => by
    rw [← h.count p, ← h.config]
    exact h'.count p

/-- What every retimed table still has: the same views behind the same handles. -/
theorem get (h : Retimed t t') (n : ℕ) {v : View} :
    (∃ r, t'.entries.get n = some r ∧ t.config.view r = v) ↔ ∃ r, t.entries.get n = some r ∧ t.config.view r = v := by
  have hview := h.view n
  constructor
  · rintro ⟨r, hr, hv⟩
    rw [hr, Option.map_some] at hview
    obtain ⟨r', hr', hv'⟩ := Option.map_eq_some_iff.mp hview.symm
    exact ⟨r', hr', hv'.trans hv⟩
  · rintro ⟨r, hr, hv⟩
    rw [hr, Option.map_some] at hview
    obtain ⟨r', hr', hv'⟩ := Option.map_eq_some_iff.mp hview
    exact ⟨r', hr', hv'.trans hv⟩

theorem keyed (h : Retimed t t') (hk : t.Keyed) : t'.Keyed := by
  intro key n
  have hv : ∀ u : Table, (∃ r, u.entries.get n = some r ∧ r.key = key) ↔
      ∃ v : View, v.key = key ∧ ∃ r, u.entries.get n = some r ∧ t.config.view r = v := by
    intro u
    constructor
    · rintro ⟨r, hr, rfl⟩
      exact ⟨t.config.view r, rfl, r, hr, rfl⟩
    · rintro ⟨_, rfl, r, hr, rfl⟩
      exact ⟨r, hr, rfl⟩
  rw [h.keyToHandle, hk key n, hv t, hv t']
  simp only [h.get n]

theorem indexExact (h : Retimed t t') (hi : t.IndexExact) : t'.IndexExact := by
  intro k n
  have hv : ∀ u : Table, (∃ r, u.entries.get n = some r ∧ (t.config.view r).Derives k) ↔
      ∃ v : View, v.Derives k ∧ ∃ r, u.entries.get n = some r ∧ t.config.view r = v := by
    intro u
    constructor
    · rintro ⟨r, hr, hd⟩
      exact ⟨t.config.view r, hd, r, hr, rfl⟩
    · rintro ⟨_, hd, r, hr, rfl⟩
      exact ⟨r, hr, hd⟩
  rw [h.index, h.config, hi k n, hv t, hv t']
  simp only [h.get n]

theorem countExact (h : Retimed t t') (hc : t.CountExact) : t'.CountExact := by
  intro c
  rw [h.srcCounts, h.config, hc c]
  exact (h.count fun v => decide (v.charge = some c)).symm

theorem indexed (h : Retimed t t') (hi : t.Indexed) : t'.Indexed :=
  ⟨h.keyed hi.keyed, h.indexExact hi.index, h.countExact hi.count⟩

end Retimed

/-- A rewriting of entries that changes nothing the maps see. -/
def KeepsView (f : SessionEntry → SessionEntry) : Prop :=
  ∀ e, (f e).decision.nat = e.decision.nat ∧ (f e).metadata = e.metadata ∧ (f e).origin = e.origin

theorem KeepsView.view {f : SessionEntry → SessionEntry} (hf : KeepsView f) (config : Config) (r : SessionRecord) :
    config.view { r with entry := f r.entry } = config.view r := by
  obtain ⟨hnat, hmeta, horigin⟩ := hf r.entry
  simp only [Config.view, Config.charge, hnat, hmeta, horigin]

theorem retimed_updateEntry (t : Table) (h : ℕ) {f : SessionEntry → SessionEntry}
    (hf : ∀ r, t.entries.get h = some r → t.config.view { r with entry := f r.entry } = t.config.view r) :
    Retimed t (t.updateEntry h f) where
  config := rfl
  keyToHandle := rfl
  index := rfl
  srcCounts := rfl
  view := fun n => by
    show ((t.entries.update h _).get n).map _ = _
    rw [Slab.get_update]
    by_cases hn : n = h
    · rw [if_pos hn, hn]
      cases hg : t.entries.get h with
      | none => rfl
      | some r => simp [hf r hg]
    · rw [if_neg hn]
  count := fun p => by
    show (t.entries.update h _).count _ = _
    cases hg : t.entries.get h with
    | none =>
      unfold Slab.update
      split
      · rfl
      · next r hr => rw [hr] at hg; cases hg
    | some r =>
      have hcount := Slab.count_update hg (fun r => { r with entry := f r.entry }) fun r => p (t.config.view r)
      rw [hf r hg] at hcount
      omega

/-- What a key leads to: the session stored under it, or a reverse session it is an alias of. -/
theorem recordByKey_spec {key : SessionKey} {h : ℕ} {r : SessionRecord} (hr : t.recordByKey key = some (h, r)) :
    t.entries.get h = some r
      ∧ (r.key = key ∨ (r.entry.metadata.isReverse = true ∧ translatedSessionKey r.key r.entry.decision.nat = key)) := by
  unfold recordByKey at hr
  simp only [Option.bind_eq_some_iff] at hr
  obtain ⟨⟨h', viaAlias⟩, -, r', hget, hmatch⟩ := hr
  split at hmatch
  · next hm =>
    obtain ⟨rfl, rfl⟩ := Prod.mk.inj (Option.some.inj hmatch)
    refine ⟨hget, ?_⟩
    cases viaAlias with
    | false => exact Or.inl (by simpa [lookupRecordMatchesKey] using hm)
    | true => exact Or.inr (by simpa [lookupRecordMatchesKey] using hm)
  · cases hmatch

theorem get_of_recordByKey {key : SessionKey} {h : ℕ} {r : SessionRecord} (hr : t.recordByKey key = some (h, r)) :
    t.entries.get h = some r := (recordByKey_spec hr).1

theorem retimed_updateByKey_of (t : Table) (key : SessionKey) {f : SessionEntry → SessionEntry}
    (hf : ∀ h r, t.recordByKey key = some (h, r) → t.entries.get h = some r →
      t.config.view { r with entry := f r.entry } = t.config.view r) : Retimed t (t.updateByKey key f) := by
  unfold updateByKey
  split
  · exact .refl t
  · next h r hr =>
    refine retimed_updateEntry t h fun r' hr' => ?_
    have hfound := get_of_recordByKey hr
    rw [hfound] at hr'
    obtain rfl := Option.some.inj hr'
    exact hf h r hr hfound

theorem retimed_updateByKey (t : Table) (key : SessionKey) {f : SessionEntry → SessionEntry} (hf : KeepsView f) :
    Retimed t (t.updateByKey key f) := retimed_updateByKey_of t key fun _ r _ _ => hf.view t.config r

theorem retimed_wheel (t : Table) (wheel : SessionWheel) : Retimed t { t with wheel := wheel } :=
  ⟨rfl, rfl, rfl, rfl, fun _ => rfl, fun _ => rfl⟩

theorem keepsView_stampSeen (nowNs : ℕ) : KeepsView (.stampSeen nowNs) := fun _ => ⟨rfl, rfl, rfl⟩

theorem keepsView_stampHealed (nowNs : ℕ) (epoch : UInt32) : KeepsView (.stampHealed nowNs epoch) :=
  fun _ => ⟨rfl, rfl, rfl⟩

theorem keepsView_scheduleAt (tick : ℕ) : KeepsView (scheduleAt tick) := fun _ => ⟨rfl, rfl, rfl⟩

theorem keepsView_pushEntry (cursorTick nowNs : ℕ) : KeepsView (pushEntry cursorTick nowNs) := by
  intro e
  unfold pushEntry
  split
  · exact keepsView_scheduleAt _ e
  · split_ifs <;> exact ⟨rfl, rfl, rfl⟩

theorem retimed_pushToWheel (t : Table) (key : SessionKey) (nowNs : ℕ) : Retimed t (t.pushToWheel key nowNs) := by
  have hobs := retimed_wheel t (t.wheel.observe nowNs)
  unfold pushToWheel
  dsimp only
  split
  · exact hobs
  · have hupd := hobs.trans (retimed_updateByKey _ key (keepsView_pushEntry (t.wheel.observe nowNs).cursorTick nowNs))
    split
    · exact hupd.trans (retimed_wheel _ _)
    · exact hupd

theorem retimed_touch (t : Table) (key : SessionKey) (nowNs : ℕ) : Retimed t (t.touch key nowNs) := by
  unfold touch
  split
  · exact .refl t
  · exact (retimed_updateByKey t key (keepsView_stampSeen nowNs)).trans (retimed_pushToWheel _ key nowNs)

theorem retimed_rescheduleAt (t : Table) (key : SessionKey) (tick : ℕ) : Retimed t (t.rescheduleAt key tick) := by
  unfold rescheduleAt
  split
  · exact .refl t
  · exact (retimed_updateByKey t key (keepsView_scheduleAt tick)).trans (retimed_wheel _ _)

theorem retimed_rebucketAliveEntry (t : Table) (key : SessionKey) (nowNs : ℕ) :
    Retimed t (t.rebucketAliveEntry key nowNs) := by
  unfold rebucketAliveEntry
  split
  · exact .refl t
  · exact retimed_rescheduleAt t key _

theorem retimed_restamp (t : Table) (key : SessionKey) (nowNs : ℕ) (epoch : Option UInt32) :
    Retimed t (t.restampLapsedPeerSynced key nowNs epoch) := by
  unfold restampLapsedPeerSynced
  split
  · exact .refl t
  · split_ifs
    · exact .refl t
    · exact (retimed_updateByKey t key (keepsView_stampHealed nowNs _)).trans (retimed_rebucketAliveEntry _ key nowNs)

theorem keepsView_propagateEntry (config : Config) (protocol : UInt8) (nowNs : ℕ) (p : TcpStatePropagation) :
    KeepsView (propagateEntry config protocol nowNs p) := by
  intro e
  unfold propagateEntry
  dsimp only
  split_ifs <;> exact ⟨rfl, rfl, rfl⟩

theorem retimed_propagate (t : Table) (matchedKey : SessionKey) (nowNs : ℕ) (p : TcpStatePropagation) :
    Retimed t (t.propagateTcpStateToCompanion matchedKey nowNs p) := by
  unfold propagateTcpStateToCompanion
  dsimp only
  split
  · exact .refl t
  · have hupd := retimed_updateByKey t (reverseSessionKey matchedKey p.nat)
      (keepsView_propagateEntry t.config (reverseSessionKey matchedKey p.nat).protocol nowNs p)
    split_ifs
    · exact hupd.trans (retimed_pushToWheel _ _ nowNs)
    · exact hupd

theorem keepsView_completeEntry (config : Config) (protocol tcpFlags : UInt8) (nowNs : ℕ) :
    KeepsView (completeEntry config protocol tcpFlags nowNs) := fun _ => ⟨rfl, rfl, rfl⟩

theorem retimed_completeHandshake (t : Table) (matchedKey : SessionKey) (nat : NatDecision) (nowNs : ℕ)
    (tcpFlags : UInt8) : Retimed t (t.completeHandshake matchedKey nat nowNs tcpFlags) := by
  have hupd := retimed_updateByKey t matchedKey
    (keepsView_completeEntry t.config matchedKey.protocol tcpFlags nowNs)
  exact (hupd.trans (retimed_propagate _ matchedKey nowNs _)).trans (retimed_pushToWheel _ matchedKey nowNs)

theorem PacketHit.keepsView_entry (hit : PacketHit) (config : Config) (nowNs : ℕ) :
    KeepsView (hit.entry config nowNs) := by
  have hclosed : KeepsView hit.closed := by
    intro e
    unfold PacketHit.closed
    split_ifs <;> exact ⟨rfl, rfl, rfl⟩
  have hpromoted : KeepsView hit.promoted := by
    intro e
    unfold PacketHit.promoted
    split_ifs <;> exact ⟨rfl, rfl, rfl⟩
  have hcompleted : KeepsView hit.completed := by
    intro e
    unfold PacketHit.completed
    split_ifs <;> exact ⟨rfl, rfl, rfl⟩
  have hrefreshed : ∀ old, KeepsView (hit.refreshed config nowNs old) := by
    intro old e
    unfold PacketHit.refreshed
    split_ifs <;> exact ⟨rfl, rfl, rfl⟩
  intro e
  obtain ⟨hn₁, hm₁, ho₁⟩ := hclosed e
  obtain ⟨hn₂, hm₂, ho₂⟩ := hpromoted (hit.closed e)
  obtain ⟨hn₃, hm₃, ho₃⟩ := hcompleted (hit.promoted (hit.closed e))
  obtain ⟨hn₄, hm₄, ho₄⟩ := hrefreshed e (hit.completed (hit.promoted (hit.closed e)))
  exact ⟨hn₄.trans (hn₃.trans (hn₂.trans hn₁)), hm₄.trans (hm₃.trans (hm₂.trans hm₁)),
    ho₄.trans (ho₃.trans (ho₂.trans ho₁))⟩

theorem retimed_lookup (t : Table) (hit : PacketHit) (nowNs : ℕ) : Retimed t (t.lookup hit nowNs) := by
  unfold lookup
  split
  · exact .refl t
  · next handle record _ =>
    split_ifs
    · exact .refl t
    · have hupd := retimed_updateEntry t handle fun r _ => (hit.keepsView_entry t.config nowNs).view t.config r
      dsimp only
      split_ifs
      · exact (hupd.trans (retimed_propagate _ _ nowNs _)).trans (retimed_pushToWheel _ _ nowNs)
      · split
        · exact (hupd.trans (retimed_completeHandshake _ _ _ nowNs _)).trans (retimed_pushToWheel _ _ nowNs)
        · exact hupd.trans (retimed_pushToWheel _ _ nowNs)

/-! ## Removing a session -/

/-- The record a key stands for. -/
theorem Keyed.get (hk : t.Keyed) {key : SessionKey} {h : ℕ} (hl : t.keyToHandle.lookup key = some h) :
    ∃ e, t.entries.get h = some ⟨key, e⟩ := by
  obtain ⟨r, hr, rfl⟩ := (hk key h).mp hl
  exact ⟨r.entry, hr⟩

/-- What is left of the table when the session under a key is removed. -/
theorem removeEntry_eq {key : SessionKey} {h : ℕ} {e : SessionEntry} (hl : t.keyToHandle.lookup key = some h)
    (hg : t.entries.get h = some ⟨key, e⟩) :
    t.removeEntry key =
      { t with
        keyToHandle := t.keyToHandle.erase key
        index := deindexed (t.index.remove (.bareTuple key.bareTuple) h) (t.config.view ⟨key, e⟩) h
        entries := t.entries.remove h
        srcCounts := t.srcCounts.decOpt (t.config.charge key e) } := by
  unfold removeEntry
  by_cases hc : t.config.sessionLimitCounted key e.origin e.metadata.isReverse = true
  · simp only [hl, hg, ne_eq, not_true_eq_false, if_false, sessionLimitCounted, Config.charge, hc, if_true]
    rfl
  · simp only [hl, hg, ne_eq, not_true_eq_false, if_false, sessionLimitCounted, Config.charge, hc]
    rfl

theorem removeEntry_of_lookup_none {key : SessionKey} (hl : t.keyToHandle.lookup key = none) : t.removeEntry key = t := by
  unfold removeEntry
  simp only [hl]

theorem Indexed.removeEntry (hi : t.Indexed) (key : SessionKey) : (t.removeEntry key).Indexed := by
  cases hl : t.keyToHandle.lookup key with
  | none => rwa [removeEntry_of_lookup_none hl]
  | some h =>
    obtain ⟨e, hg⟩ := hi.keyed.get hl
    rw [removeEntry_eq hl hg]
    refine ⟨fun key' h' => ?_, ?_, fun c => ?_⟩
    · show (t.keyToHandle.erase key).lookup key' = some h' ↔ ∃ r, (t.entries.remove h).get h' = some r ∧ r.key = key'
      rw [Slab.get_remove]
      by_cases hkey : key' = key
      · subst hkey
        rw [AList.lookup_erase]
        constructor
        · intro hf
          cases hf
        rintro ⟨r, hr, hrk⟩
        split at hr
        · cases hr
        · next hne =>
          have := (hi.keyed key' h').mpr ⟨r, hr, hrk⟩
          rw [hl] at this
          exact absurd (Option.some.inj this).symm hne
      · rw [AList.lookup_erase_ne hkey, hi.keyed key' h']
        by_cases hh : h' = h
        · subst hh
          rw [if_pos rfl, hg]
          refine ⟨?_, by rintro ⟨r, hr, -⟩; cases hr⟩
          rintro ⟨r, hr, hrk⟩
          obtain rfl := Option.some.inj hr
          exact absurd hrk.symm hkey
        · rw [if_neg hh]
    · refine hi.index.remove hg (fun k hd hmem => ?_) (fun k hmem => ?_) fun k h' hne => ?_
      · rcases hd with hbare | hnat
        · have hmem' := mem_of_mem_deindexed hmem
          rw [HandleIndex.mem_remove] at hmem'
          exact hmem'.2 ⟨hbare, rfl⟩
        · exact notMem_deindexed hnat hmem
      · exact (HandleIndex.mem_remove.mp (mem_of_mem_deindexed hmem)).1
      · rw [mem_deindexed_of_ne hne, HandleIndex.mem_remove]
        exact ⟨fun hand => hand.1, fun hmem => ⟨hmem, fun hand => hne hand.2⟩⟩
    · have hcount := Slab.count_remove hg fun r => decide ((t.config.view r).charge = some c)
      have hc := hi.count c
      have hcharge : (t.config.view ⟨key, e⟩).charge = t.config.charge key e := rfl
      show (t.srcCounts.decOpt (t.config.charge key e)).get c
        = (t.entries.remove h).count fun r => decide ((t.config.view r).charge = some c)
      rw [Tally.get_decOpt, hc]
      rw [hcharge] at hcount
      omega

theorem lookup_removeEntry (hk : t.Keyed) (key : SessionKey) : (t.removeEntry key).keyToHandle.lookup key = none := by
  cases hl : t.keyToHandle.lookup key with
  | none => rw [removeEntry_of_lookup_none hl, hl]
  | some h =>
    obtain ⟨e, hg⟩ := hk.get hl
    rw [removeEntry_eq hl hg]
    exact AList.lookup_erase key t.keyToHandle

/-! ## Storing a session -/

theorem Retimed.recounted (h : Retimed t t') (counts : Tally (UInt32 × IpAddr)) :
    Retimed { t with srcCounts := counts } { t' with srcCounts := counts } :=
  ⟨h.config, h.keyToHandle, h.index, rfl, h.view, h.count⟩

theorem Retimed.reindexed (h : Retimed t t') (index : HandleIndex IndexKey) (counts : Tally (UInt32 × IpAddr)) :
    Retimed { t with index := index, srcCounts := counts } { t' with index := index, srcCounts := counts } :=
  ⟨h.config, h.keyToHandle, rfl, rfl, h.view, h.count⟩

theorem countStored_eq (t : Table) (key : SessionKey) (e : SessionEntry) :
    t.countStored key e.origin e.metadata = { t with srcCounts := t.srcCounts.incOpt (t.config.charge key e) } := by
  unfold countStored sessionLimitCounted sessionLimitInc Config.charge
  split_ifs <;> rfl

/-- A session stored under a free key and counted. -/
theorem Indexed.storeRecord (hi : t.Indexed) {key : SessionKey} (hl : t.keyToHandle.lookup key = none) (e : SessionEntry) :
    ((t.storeRecord ⟨key, e⟩).countStored key e.origin e.metadata).Indexed := by
  rw [countStored_eq]
  have hvac := Slab.get_vacantKey t.entries
  refine ⟨fun key' h' => ?_, ?_, fun c => ?_⟩
  · show (t.keyToHandle.insert key t.entries.vacantKey).lookup key' = some h'
      ↔ ∃ r, (t.entries.insert ⟨key, e⟩).get h' = some r ∧ r.key = key'
    rw [Slab.get_insert]
    by_cases hkey : key' = key
    · subst hkey
      rw [AList.lookup_insert]
      constructor
      · intro heq
        obtain rfl := Option.some.inj heq
        exact ⟨⟨key', e⟩, if_pos rfl, rfl⟩
      · rintro ⟨r, hr, hrk⟩
        split at hr
        · next heq => rw [heq]
        · have := (hi.keyed key' h').mpr ⟨r, hr, hrk⟩
          rw [hl] at this
          cases this
    · rw [AList.lookup_insert_ne hkey, hi.keyed key' h']
      by_cases hh : h' = t.entries.vacantKey
      · subst hh
        rw [if_pos rfl, hvac]
        constructor
        · rintro ⟨r, hr, -⟩
          cases hr
        · rintro ⟨r, hr, hrk⟩
          obtain rfl := Option.some.inj hr
          exact absurd hrk.symm hkey
      · rw [if_neg hh]
  · refine hi.index.insert fun k h' => ?_
    refine Iff.trans (mem_indexForwardNatKeyParts (v := t.config.view ⟨key, e⟩)) ?_
    rw [HandleIndex.mem_push, View.Derives]
    show (_ ∨ k = .bareTuple key.bareTuple ∧ _) ∨ _ ↔ _
    tauto
  · have hcount := Slab.count_insert t.entries ⟨key, e⟩ fun r => decide ((t.config.view r).charge = some c)
    have hcharge : (t.config.view ⟨key, e⟩).charge = t.config.charge key e := rfl
    show (t.srcCounts.incOpt (t.config.charge key e)).get c
      = (t.entries.insert ⟨key, e⟩).count fun r => decide ((t.config.view r).charge = some c)
    rw [Tally.get_incOpt, hi.count c, hcount, hcharge]

/-- The same with the hint queued in between, as installs and imports do it. -/
theorem Indexed.storeHinted (hi : t.Indexed) {key : SessionKey} (hl : t.keyToHandle.lookup key = none)
    (e : SessionEntry) (nowNs : ℕ) :
    (((t.storeRecord ⟨key, e⟩).pushToWheel key nowNs).countStored key e.origin e.metadata).Indexed := by
  have hpush := retimed_pushToWheel (t.storeRecord ⟨key, e⟩) key nowNs
  have hstored := hi.storeRecord hl e
  rw [countStored_eq] at hstored
  have hcounts : ((t.storeRecord ⟨key, e⟩).pushToWheel key nowNs).srcCounts.incOpt
      (((t.storeRecord ⟨key, e⟩).pushToWheel key nowNs).config.charge key e) =
        (t.storeRecord ⟨key, e⟩).srcCounts.incOpt ((t.storeRecord ⟨key, e⟩).config.charge key e) := by
    rw [hpush.config, hpush.srcCounts]
  rw [countStored_eq, hcounts]
  exact (hpush.recounted _).indexed hstored

theorem Indexed.congr (hi : t.Indexed) (hconfig : t'.config = t.config) (hentries : t'.entries = t.entries)
    (hkeys : t'.keyToHandle = t.keyToHandle) (hindex : t'.index = t.index) (hcounts : t'.srcCounts = t.srcCounts) :
    t'.Indexed := by
  have hret : Retimed t t' :=
    ⟨hconfig, hkeys, hindex, hcounts, fun h => by rw [hentries], fun p => by rw [hentries]⟩
  exact hret.indexed hi

theorem takeSessionId_snd (t : Table) (given : UInt64) :
    ∃ n, (t.takeSessionId given).2 = { t with nextSessionId := n } := by
  unfold takeSessionId
  split_ifs
  · exact ⟨t.nextSessionId, rfl⟩
  · exact ⟨t.nextSessionId + 1, rfl⟩

theorem Indexed.replaceSession (hi : t.Indexed) (key : SessionKey) (givenId : UInt64) (nowNs : ℕ)
    (entry : ℕ → UInt64 → SessionEntry) : (t.replaceSession key givenId nowNs entry).Indexed := by
  dsimp only [Table.replaceSession]
  obtain ⟨n, hn⟩ := takeSessionId_snd (t.removeEntry key).nextEpoch givenId
  have hremoved := hi.removeEntry key
  have hfree := lookup_removeEntry hi.keyed key
  generalize (t.removeEntry key).nextEpoch.takeSessionId givenId = taken at hn ⊢
  have hbase : taken.2.Indexed := by
    rw [hn]
    exact hremoved.congr rfl rfl rfl rfl rfl
  have hlookup : taken.2.keyToHandle.lookup key = none := by
    rw [hn]
    exact hfree
  exact hbase.storeHinted hlookup (entry taken.2.epochCounter taken.1) nowNs

theorem Indexed.installWithOrigin (hi : t.Indexed) (req : InstallRequest) (nowNs : ℕ) :
    (t.installWithOrigin req nowNs).Indexed := by
  unfold Table.installWithOrigin
  split_ifs
  · exact hi
  · exact hi.replaceSession _ _ _ _

theorem Indexed.upsertSyncedWithOrigin (hi : t.Indexed) (req : ImportRequest) (nowNs : ℕ) :
    (t.upsertSyncedWithOrigin req nowNs).Indexed := by
  unfold Table.upsertSyncedWithOrigin
  split_ifs
  · exact hi
  · exact hi.replaceSession _ _ _ _

/-! ## Rewriting a session in place -/

/-- Moving a count trades the old charge for the new one, if the old one was counted. -/
theorem get_recharge {counts : Tally (UInt32 × IpAddr)} {srcIp : IpAddr} {oldCounted newCounted : Bool}
    {oldZone newZone : UInt32} {c : UInt32 × IpAddr}
    (hle : (decide ((if oldCounted then some (oldZone, srcIp) else none) = some c)).toNat ≤ counts.get c) :
    (recharge counts srcIp oldCounted newCounted oldZone newZone).get c
        + (decide ((if oldCounted then some (oldZone, srcIp) else none) = some c)).toNat =
      counts.get c + (decide ((if newCounted then some (newZone, srcIp) else none) = some c)).toNat := by
  unfold recharge
  cases oldCounted <;> cases newCounted <;> by_cases hz : oldZone = newZone <;>
    simp [hz, Tally.get_inc, Tally.get_dec] at hle ⊢ <;> omega

/-- A stored session is in its count. -/
theorem Indexed.charge_le (hi : t.Indexed) {h : ℕ} {key : SessionKey} {e : SessionEntry}
    (hg : t.entries.get h = some ⟨key, e⟩) (c : UInt32 × IpAddr) :
    (decide (t.config.charge key e = some c)).toNat ≤ t.srcCounts.get c := by
  have hcount := Slab.count_remove hg fun r => decide ((t.config.view r).charge = some c)
  have hcharge : (t.config.view ⟨key, e⟩).charge = t.config.charge key e := rfl
  rw [hcharge] at hcount
  rw [hi.count c]
  omega

/-- A session rewritten where it stands, with the maps and the counts brought up to date. -/
theorem Indexed.rewrite (hi : t.Indexed) {h : ℕ} {key : SessionKey} {e : SessionEntry}
    (hg : t.entries.get h = some ⟨key, e⟩) (f : SessionEntry → SessionEntry) {index : HandleIndex IndexKey}
    {counts : Tally (UInt32 × IpAddr)}
    (hat : ∀ k, h ∈ index.members k ↔ (t.config.view ⟨key, f e⟩).Derives k)
    (hoff : ∀ k h', h' ≠ h → (h' ∈ index.members k ↔ h' ∈ t.index.members k))
    (hcounts : ∀ c, counts.get c + (decide (t.config.charge key e = some c)).toNat =
      t.srcCounts.get c + (decide (t.config.charge key (f e) = some c)).toNat) :
    Indexed { t.updateEntry h f with index := index, srcCounts := counts } := by
  refine ⟨fun key' h' => ?_, ?_, fun c => ?_⟩
  · show t.keyToHandle.lookup key' = some h'
      ↔ ∃ r, (t.entries.update h fun r => { r with entry := f r.entry }).get h' = some r ∧ r.key = key'
    rw [hi.keyed key' h', Slab.get_update]
    by_cases hh : h' = h
    · subst hh
      rw [if_pos rfl, hg]
      simp
    · rw [if_neg hh]
  · exact hi.index.update hg hat hoff
  · have hcount := Slab.count_update hg (fun r => { r with entry := f r.entry })
      fun r => decide ((t.config.view r).charge = some c)
    have hc := hcounts c
    have hold : (t.config.view ⟨key, e⟩).charge = t.config.charge key e := rfl
    have hnew : (t.config.view ⟨key, f e⟩).charge = t.config.charge key (f e) := rfl
    rw [hold, hnew, ← hi.count c] at hcount
    show counts.get c = (t.entries.update h fun r => { r with entry := f r.entry }).count
      fun r => decide ((t.config.view r).charge = some c)
    omega

/-- A rewriting that moves the session in no map only moves its count. -/
theorem Indexed.rewrite_recharged (hi : t.Indexed) {h : ℕ} {key : SessionKey} {e : SessionEntry}
    (hg : t.entries.get h = some ⟨key, e⟩) (f : SessionEntry → SessionEntry)
    (hkeys : ∀ k, (t.config.view ⟨key, f e⟩).Derives k ↔ (t.config.view ⟨key, e⟩).Derives k) :
    Indexed { t.updateEntry h f with
      srcCounts := recharge t.srcCounts key.srcIp
        (t.config.sessionLimitCounted key e.origin e.metadata.isReverse)
        (t.config.sessionLimitCounted key (f e).origin (f e).metadata.isReverse)
        e.metadata.ingressZone (f e).metadata.ingressZone } := by
  refine Indexed.rewrite hi hg f (fun k => ?_) (fun k h' _ => Iff.rfl) fun c => ?_
  · show h ∈ t.index.members k ↔ _
    rw [hi.index k h, hkeys k, hg]
    simp
  · exact get_recharge (hi.charge_le hg c)

theorem UpdatePacket.entry_parts (p : UpdatePacket) (config : Config) (origin : SessionOrigin) (e : SessionEntry) :
    (p.entry config origin e).decision = e.decision ∧ (p.entry config origin e).metadata = e.metadata
      ∧ (p.entry config origin e).origin = origin := by
  unfold UpdatePacket.entry UpdatePacket.retimed UpdatePacket.handshaken
  split_ifs <;> exact ⟨rfl, rfl, rfl⟩

theorem refreshedEntry_parts (config : Config) (req : RefreshRequest) (nowNs : ℕ) (e : SessionEntry) :
    (refreshedEntry config req nowNs e).decision = req.decision
      ∧ (refreshedEntry config req nowNs e).metadata = req.metadata
      ∧ (refreshedEntry config req nowNs e).origin = refreshedOrigin req e := by
  unfold refreshedEntry refreshedOrigin
  split
  · next origin packet _ =>
    obtain ⟨hd, hm, ho⟩ := packet.entry_parts config origin (rewriteEntry req nowNs e)
    exact ⟨hd, hm, ho⟩
  · exact ⟨rfl, rfl, rfl⟩

/-- The maps after a session was taken out of them, if it moves, and put in as rewritten. -/
theorem Indexed.mem_reindexed (hi : t.Indexed) {h : ℕ} {key : SessionKey} {e e' : SessionEntry}
    (hg : t.entries.get h = some ⟨key, e⟩) {moves : Bool}
    (hstay : moves = false → (t.config.view ⟨key, e'⟩).natKeys = (t.config.view ⟨key, e⟩).natKeys) (k : IndexKey) :
    (h ∈ (if moves then deindexed t.index (t.config.view ⟨key, e⟩) h else t.index).members k
        ∨ k ∈ (t.config.view ⟨key, e'⟩).natKeys) ↔ (t.config.view ⟨key, e'⟩).Derives k := by
  have hold : h ∈ t.index.members k ↔ (t.config.view ⟨key, e⟩).Derives k := by
    rw [hi.index k h, hg]
    simp
  cases moves with
  | false =>
    simp only [Bool.false_eq_true, if_false, hold, View.Derives, hstay rfl]
    tauto
  | true =>
    simp only [if_true, View.Derives]
    constructor
    · rintro (hmem | hnat)
      · rcases hold.mp (mem_of_mem_deindexed hmem) with hbare | hnat
        · exact Or.inl hbare
        · exact absurd hmem (notMem_deindexed hnat)
      · exact Or.inr hnat
    · rintro (hbare | hnat)
      · left
        subst hbare
        exact mem_deindexed_bareTuple.mpr (hold.mpr (Or.inl rfl))
      · exact Or.inr hnat

theorem Indexed.refreshRecord (hi : t.Indexed) {req : RefreshRequest} {h : ℕ} {old : SessionEntry}
    (hg : t.entries.get h = some ⟨req.key, old⟩) (nowNs : ℕ) : (t.refreshRecord req h nowNs old).Indexed := by
  obtain ⟨hd, hm, ho⟩ := refreshedEntry_parts t.config req nowNs old
  have hview : t.config.view ⟨req.key, refreshedEntry t.config req nowNs old⟩ =
      ⟨req.key, req.decision.nat, req.metadata.isReverse, req.metadata.ownerRgId,
        t.config.charge req.key (refreshedEntry t.config req nowNs old)⟩ := by
    simp only [Config.view, hd, hm]
  have hstay : reindexes req old = false →
      (t.config.view ⟨req.key, refreshedEntry t.config req nowNs old⟩).natKeys
        = (t.config.view ⟨req.key, old⟩).natKeys := by
    intro hno
    simp only [reindexes, Bool.or_eq_false_iff, decide_eq_false_iff_not, not_not, bne_eq_false_iff_eq] at hno
    obtain ⟨⟨hnat, hrev⟩, howner⟩ := hno
    rw [hview]
    simp only [View.natKeys, Config.view, hnat, hrev, howner]
  have hidx : ∀ k h', h' ∈ (indexForwardNatKeyParts
      (if reindexes req old then deindexed t.index (t.config.view ⟨req.key, old⟩) h else t.index)
      req.key h req.decision.nat req.metadata.isReverse req.metadata.ownerRgId).members k ↔
        h' ∈ (if reindexes req old then deindexed t.index (t.config.view ⟨req.key, old⟩) h else t.index).members k
          ∨ (h' = h ∧ k ∈ (t.config.view ⟨req.key, refreshedEntry t.config req nowNs old⟩).natKeys) := by
    intro k h'
    rw [hview]
    exact mem_indexForwardNatKeyParts (v := ⟨req.key, req.decision.nat, req.metadata.isReverse,
      req.metadata.ownerRgId, t.config.charge req.key (refreshedEntry t.config req nowNs old)⟩)
  -- the table with the maps and counts already right; what is left only retimes it
  have hdone : Indexed { t.updateEntry h (refreshedEntry t.config req nowNs) with
      index := indexForwardNatKeyParts
        (if reindexes req old then deindexed t.index (t.config.view ⟨req.key, old⟩) h else t.index)
        req.key h req.decision.nat req.metadata.isReverse req.metadata.ownerRgId
      srcCounts := recharge t.srcCounts req.key.srcIp
        (t.config.sessionLimitCounted req.key old.origin old.metadata.isReverse)
        (t.config.sessionLimitCounted req.key (refreshedOrigin req old) req.metadata.isReverse)
        old.metadata.ingressZone req.metadata.ingressZone } := by
    refine hi.rewrite hg _ (fun k => ?_) (fun k h' hne => ?_) fun c => ?_
    · rw [← hi.mem_reindexed hg hstay k, hidx k h]
      simp
    · rw [hidx k h', or_iff_left fun hand => hne hand.1]
      split_ifs
      · exact mem_deindexed_of_ne hne
      · exact Iff.rfl
    · unfold Config.charge
      rw [hm, ho]
      exact get_recharge (hi.charge_le hg c)
  have hfinish : ∀ told : Table, Retimed ({ t with index :=
      (if reindexes req old then deindexed t.index (t.config.view ⟨req.key, old⟩) h else t.index) }.updateEntry h
        (refreshedEntry t.config req nowNs)) told →
      Indexed { told with
        srcCounts := recharge told.srcCounts req.key.srcIp
          (t.config.sessionLimitCounted req.key old.origin old.metadata.isReverse)
          (t.config.sessionLimitCounted req.key (refreshedOrigin req old) req.metadata.isReverse)
          old.metadata.ingressZone req.metadata.ingressZone
        index := indexForwardNatKeyParts told.index req.key h req.decision.nat req.metadata.isReverse
          req.metadata.ownerRgId } := by
    intro told hret
    rw [hret.index, hret.srcCounts]
    exact (hret.reindexed _ _).indexed hdone
  unfold Table.refreshRecord Table.finishRefreshInPlace
  dsimp only
  cases refreshPropagation req nowNs old with
  | none => exact (retimed_pushToWheel _ req.key nowNs).indexed (hfinish _ (.refl _))
  | some propagate =>
    exact (retimed_pushToWheel _ req.key nowNs).indexed (hfinish _ (retimed_propagate _ _ nowNs _))

/-- Adding the index keys of a session once more changes nothing. -/
theorem Indexed.indexedAgain (hi : t.Indexed) {h : ℕ} {key : SessionKey} {e : SessionEntry}
    (hg : t.entries.get h = some ⟨key, e⟩) :
    Indexed { t with
      index := indexForwardNatKeyParts t.index key h e.decision.nat e.metadata.isReverse e.metadata.ownerRgId } := by
  refine ⟨hi.keyed, fun k h' => ?_, hi.count⟩
  have hadd : h' ∈ (indexForwardNatKeyParts t.index key h e.decision.nat e.metadata.isReverse
      e.metadata.ownerRgId).members k ↔ h' ∈ t.index.members k ∨ (h' = h ∧ k ∈ (t.config.view ⟨key, e⟩).natKeys) :=
    mem_indexForwardNatKeyParts (v := t.config.view ⟨key, e⟩)
  refine (hadd.trans ?_).trans (hi.index k h')
  refine or_iff_left_of_imp ?_
  rintro ⟨rfl, hk⟩
  exact (hi.index k h').mpr ⟨⟨key, e⟩, hg, Or.inr hk⟩

theorem Indexed.refreshInPlace (hi : t.Indexed) (req : RefreshRequest) (nowNs : ℕ) :
    (t.refreshInPlace req nowNs).Indexed := by
  unfold Table.refreshInPlace
  split
  · exact hi
  · next h hl =>
    obtain ⟨old, hg⟩ := hi.keyed.get hl
    simp only [hg, ne_eq, not_true_eq_false, if_false]
    split_ifs
    · exact hi.indexedAgain hg
    · exact hi
    · exact hi.refreshRecord hg nowNs

/-! ## Rebinding, revalidating, handing over -/

/-- The session stored under a key is what the key leads to. -/
theorem Keyed.recordByKey (hk : t.Keyed) {h : ℕ} {r : SessionRecord} (hg : t.entries.get h = some r) :
    t.recordByKey r.key = some (h, r) := by
  have hl : t.keyToHandle.lookup r.key = some h := (hk r.key h).mpr ⟨r, hg, rfl⟩
  simp [Table.recordByKey, resolveLookupHandle, hl, hg, lookupRecordMatchesKey]

/-- A session that is no reverse session is found under its own key only. -/
theorem key_of_recordByKey {key : SessionKey} {h : ℕ} {r : SessionRecord} (hr : t.recordByKey key = some (h, r))
    (hrev : r.entry.metadata.isReverse = false) : r.key = key := by
  rcases (recordByKey_spec hr).2 with hkey | ⟨hreverse, -⟩
  · exact hkey
  · rw [hrev] at hreverse
    cases hreverse

theorem entryByKey_eq_some {key : SessionKey} {e : SessionEntry} (he : t.entryByKey key = some e) :
    ∃ h r, t.recordByKey key = some (h, r) ∧ r.entry = e := by
  obtain ⟨⟨h, r⟩, hr, rfl⟩ := Option.map_eq_some_iff.mp he
  exact ⟨h, r, hr, rfl⟩

/-- A rewriting of entries that moves a session in no map, whatever it is charged to. -/
def KeepsKeys (f : SessionEntry → SessionEntry) : Prop :=
  ∀ e, (f e).decision.nat = e.decision.nat ∧ (f e).metadata.isReverse = e.metadata.isReverse
    ∧ (f e).metadata.ownerRgId = e.metadata.ownerRgId

theorem KeepsKeys.derives {f : SessionEntry → SessionEntry} (hf : KeepsKeys f) (config : Config) (key : SessionKey)
    (e : SessionEntry) (k : IndexKey) : (config.view ⟨key, f e⟩).Derives k ↔ (config.view ⟨key, e⟩).Derives k := by
  obtain ⟨hnat, hrev, howner⟩ := hf e
  simp only [View.Derives, View.natKeys, Config.view, hnat, hrev, howner]

/-- A reverse session is not counted: only its keys can change what is seen of it. -/
theorem KeepsKeys.view_reverse {f : SessionEntry → SessionEntry} (hf : KeepsKeys f) (config : Config)
    {r : SessionRecord} (hr : r.entry.metadata.isReverse = true) :
    config.view { r with entry := f r.entry } = config.view r := by
  obtain ⟨hnat, hrev, howner⟩ := hf r.entry
  simp only [Config.view, Config.charge, Config.sessionLimitCounted, hnat, hrev, howner, hr, Bool.true_or, if_true,
    Bool.false_eq_true, if_false]

theorem updateByKey_eq {key : SessionKey} {h : ℕ} {r : SessionRecord} (hr : t.recordByKey key = some (h, r))
    (f : SessionEntry → SessionEntry) : t.updateByKey key f = t.updateEntry h f := by
  simp only [updateByKey, hr]

section

variable {h : ℕ} {key : SessionKey} {e : SessionEntry} {bind : SessionEntry → SessionEntry}

/-- The forward session of a pair, rebound and counted for its new zone. -/
theorem Indexed.rebindForward (hi : t.Indexed) (hg : t.entries.get h = some ⟨key, e⟩)
    (hrev : e.metadata.isReverse = false) (zones : ZonePair) (hbind : KeepsKeys bind)
    (horigin : ∀ e, (bind e).origin = e.origin) :
    Indexed { t.updateEntry h (fun e => bindZones zones (bind e)) with
      srcCounts := recharge t.srcCounts key.srcIp (t.sessionLimitCounted key e.origin false)
        (t.sessionLimitCounted key e.origin false) e.metadata.ingressZone zones.ingressZone } := by
  have hkeys : KeepsKeys fun e => bindZones zones (bind e) := fun e => hbind e
  have hdone := hi.rewrite_recharged hg (fun e => bindZones zones (bind e)) (hkeys.derives t.config key e)
  have hcounted : t.sessionLimitCounted key e.origin false
      = t.config.sessionLimitCounted key e.origin e.metadata.isReverse := by rw [sessionLimitCounted, hrev]
  have hcounted' : t.config.sessionLimitCounted key (bindZones zones (bind e)).origin
      (bindZones zones (bind e)).metadata.isReverse = t.config.sessionLimitCounted key e.origin e.metadata.isReverse := by
    rw [show (bindZones zones (bind e)).origin = e.origin from horigin e, (hkeys e).2.1]
  rw [hcounted'] at hdone
  rw [hcounted]
  exact hdone

/-- The companion of a rebound pair is a reverse session, so that no map sees it change. -/
theorem Indexed.rebindCompanion (hi : t.Indexed) (hg : t.entries.get h = some ⟨key, e⟩)
    {companionKey : SessionKey} (hne : companionKey ≠ key) (hpair : t.pairRebindable key companionKey e = true)
    (f : SessionEntry → SessionEntry) {g : SessionEntry → SessionEntry} (hkeys : KeepsKeys g) :
    Retimed (t.updateEntry h f) ((t.updateEntry h f).updateByKey companionKey g) := by
  refine retimed_updateByKey_of _ _ fun h' r' hr' hg' => ?_
  cases hrev' : r'.entry.metadata.isReverse with
  | true => exact hkeys.view_reverse _ hrev'
  | false =>
    exfalso
    have hkey' := key_of_recordByKey hr' hrev'
    have hold : t.entries.get h' = some r' := by
      change (t.entries.update h _).get h' = some r' at hg'
      rw [Slab.get_update] at hg'
      split at hg'
      · rw [hg, Option.map_some] at hg'
        have hsame : key = r'.key := by rw [← Option.some.inj hg']
        exact absurd (hkey'.symm.trans hsame.symm) hne
      · exact hg'
    have hfound := hi.keyed.recordByKey hold
    rw [hkey'] at hfound
    simp [pairRebindable, hne, entryByKey, hfound, hrev'] at hpair

theorem Indexed.rebindPair (hi : t.Indexed) (key : SessionKey) (zones : ZonePair)
    (hbind : KeepsKeys bind) (horigin : ∀ e, (bind e).origin = e.origin) : (t.rebindPair key zones bind).Indexed := by
  unfold Table.rebindPair
  split
  · exact hi
  · next forward he =>
    obtain ⟨h, ⟨rkey, e⟩, hr, rfl⟩ := entryByKey_eq_some he
    dsimp only
    split_ifs with hrev hpair hcomp
    · exact hi
    · exact hi
    · obtain rfl : rkey = key := key_of_recordByKey hr (Bool.eq_false_iff.mpr hrev)
      have hg := get_of_recordByKey hr
      have hcompanion := hi.rebindCompanion hg hcomp (by simpa using hpair) (fun e => bindZones zones (bind e))
        (g := fun e => bindZones zones.swap (bind e)) fun e => hbind e
      rw [updateByKey_eq hr, hcompanion.srcCounts]
      exact (hcompanion.recounted _).indexed
        (hi.rebindForward hg (Bool.eq_false_iff.mpr hrev) zones hbind horigin)
    · obtain rfl : rkey = key := key_of_recordByKey hr (Bool.eq_false_iff.mpr hrev)
      rw [updateByKey_eq hr]
      exact hi.rebindForward (get_of_recordByKey hr) (Bool.eq_false_iff.mpr hrev) zones hbind horigin

end

theorem keepsKeys_bindPolicy (policyId policyCounterIdx : UInt32) : KeepsKeys (bindPolicy policyId policyCounterIdx) :=
  fun _ => ⟨rfl, rfl, rfl⟩

theorem keepsKeys_id : KeepsKeys id := fun _ => ⟨rfl, rfl, rfl⟩

theorem keepsKeys_moveIngress (zone : UInt32) : KeepsKeys (moveIngress zone) := by
  intro e
  unfold moveIngress
  split_ifs <;> exact ⟨rfl, rfl, rfl⟩

/-- The egress zone is in no map, and a forward session's is all that moves. -/
theorem view_moveEgress (config : Config) (zone : UInt32) (r : SessionRecord) :
    config.view { r with entry := moveEgress zone r.entry } = config.view r := by
  unfold moveEgress
  split_ifs <;> rfl

/-- The ingress zone that moves is a reverse session's, which is not counted. -/
theorem view_moveIngress (config : Config) (zone : UInt32) (r : SessionRecord) :
    config.view { r with entry := moveIngress zone r.entry } = config.view r := by
  cases hrev : r.entry.metadata.isReverse with
  | true => exact (keepsKeys_moveIngress zone).view_reverse config hrev
  | false => simp [moveIngress, hrev]

theorem retimed_moveEgress (t : Table) (key : SessionKey) (zone : UInt32) :
    Retimed t (t.updateByKey key (moveEgress zone)) :=
  retimed_updateByKey_of t key fun _ r _ _ => view_moveEgress t.config zone r

theorem retimed_moveIngress (t : Table) (key : SessionKey) (zone : UInt32) :
    Retimed t (t.updateByKey key (moveIngress zone)) :=
  retimed_updateByKey_of t key fun _ r _ _ => view_moveIngress t.config zone r

/-- The keys of a session in the maps that follow its NAT decision and direction alone. -/
theorem View.mem_natKeys_owner {v : View} {k : IndexKey} :
    k ∈ v.natKeys ↔ (k ∈ v.natKeys ∧ ∀ id, k ≠ .ownerRg id) ∨ k ∈ ownerRgIndexKeys v.ownerRgId := by
  have howner : ∀ id, IndexKey.ownerRg id ∈ v.natKeys → IndexKey.ownerRg id ∈ ownerRgIndexKeys v.ownerRgId := by
    intro id hid
    have hnat : IndexKey.ownerRg id ∉ natIndexKeys v.key v.nat v.isReverse := by
      unfold natIndexKeys
      split_ifs <;> simp
    have hreply : IndexKey.ownerRg id ∉ replyAliasIndexKeys v.key v.nat v.isReverse := by
      unfold replyAliasIndexKeys
      split
      · split_ifs <;> simp
      · simp
    have hl3 : IndexKey.ownerRg id ∉ l3ReverseIndexKeys v.key v.nat v.isReverse := by
      unfold l3ReverseIndexKeys
      split <;> simp
    simpa [View.natKeys, hnat, hreply, hl3] using hid
  constructor
  · intro hk
    by_cases hid : ∃ id, k = .ownerRg id
    · obtain ⟨id, rfl⟩ := hid
      exact Or.inr (howner id hk)
    · exact Or.inl ⟨hk, fun id heq => hid ⟨id, heq⟩⟩
  · rintro (⟨hk, -⟩ | hk)
    · exact hk
    · simp [View.natKeys, hk]

theorem eq_ownerRg_of_mem {ownerRgId : Int32} {k : IndexKey} (hk : k ∈ ownerRgIndexKeys ownerRgId) :
    k = .ownerRg ownerRgId := by
  unfold ownerRgIndexKeys at hk
  split_ifs at hk
  · exact List.mem_singleton.mp hk
  · cases hk

/-- The maps after a session changed its owner group. -/
theorem mem_ownerMoved {index : HandleIndex IndexKey} {oldOwner newOwner : Int32} {h h' : ℕ} {k : IndexKey} :
    h' ∈ (if newOwner > 0 then (removeOwnerRgIndexEntry index oldOwner h).push (.ownerRg newOwner) h
        else removeOwnerRgIndexEntry index oldOwner h).members k ↔
      (h' ∈ index.members k ∧ ¬(h' = h ∧ k ∈ ownerRgIndexKeys oldOwner))
        ∨ (h' = h ∧ k ∈ ownerRgIndexKeys newOwner) := by
  have hremove : h' ∈ (removeOwnerRgIndexEntry index oldOwner h).members k ↔
      h' ∈ index.members k ∧ ¬(h' = h ∧ k ∈ ownerRgIndexKeys oldOwner) := by
    rw [removeOwnerRgIndexEntry, HandleIndex.mem_foldl_remove]
    simp
  by_cases hpos : newOwner > 0
  · rw [if_pos hpos, HandleIndex.mem_push, hremove]
    simp only [ownerRgIndexKeys, hpos, if_true, List.mem_singleton]
    tauto
  · rw [if_neg hpos, hremove]
    simp [ownerRgIndexKeys, hpos]

/-- A session that goes elsewhere now, perhaps under another owner group. -/
theorem Indexed.revalidated (hi : t.Indexed) {h : ℕ} {key : SessionKey} {e : SessionEntry}
    (hg : t.entries.get h = some ⟨key, e⟩) (disposition : ForwardingDisposition) (newOwner : Int32) :
    Indexed { t.updateEntry h (revalidateEntry disposition (some newOwner)) with
      index := if newOwner > 0 then (removeOwnerRgIndexEntry t.index e.metadata.ownerRgId h).push (.ownerRg newOwner) h
        else removeOwnerRgIndexEntry t.index e.metadata.ownerRgId h } := by
  have hold : ∀ k, h ∈ t.index.members k ↔ (t.config.view ⟨key, e⟩).Derives k := by
    intro k
    rw [hi.index k h, hg]
    simp
  have hnew : ∀ k, (k ∈ (t.config.view ⟨key, revalidateEntry disposition (some newOwner) e⟩).natKeys
      ∧ ∀ id, k ≠ .ownerRg id) ↔ k ∈ (t.config.view ⟨key, e⟩).natKeys ∧ ∀ id, k ≠ .ownerRg id := by
    intro k
    have hoff : ∀ owner : Int32, (∀ id, k ≠ .ownerRg id) → k ∉ ownerRgIndexKeys owner :=
      fun owner hne hmem => hne owner (eq_ownerRg_of_mem hmem)
    refine and_congr_left fun hne => ?_
    simp only [View.natKeys, Config.view, revalidateEntry, List.mem_append, hoff _ hne]
  refine hi.rewrite hg _ (fun k => ?_) (fun k h' hne => ?_) fun c => rfl
  · have hkeys : k ∈ (t.config.view ⟨key, e⟩).natKeys ↔ (k ∈ (t.config.view ⟨key, e⟩).natKeys
        ∧ ∀ id, k ≠ .ownerRg id) ∨ k ∈ ownerRgIndexKeys e.metadata.ownerRgId := View.mem_natKeys_owner
    have hkeys' : k ∈ (t.config.view ⟨key, revalidateEntry disposition (some newOwner) e⟩).natKeys ↔
        (k ∈ (t.config.view ⟨key, e⟩).natKeys ∧ ∀ id, k ≠ .ownerRg id) ∨ k ∈ ownerRgIndexKeys newOwner :=
      View.mem_natKeys_owner.trans (or_congr_left (hnew k))
    have hbare : k = .bareTuple key.bareTuple → k ∉ ownerRgIndexKeys e.metadata.ownerRgId := by
      rintro rfl
      simp
    have howner : k ∈ ownerRgIndexKeys e.metadata.ownerRgId → ¬∀ id, k ≠ .ownerRg id :=
      fun hmem hne => hne _ (eq_ownerRg_of_mem hmem)
    rw [mem_ownerMoved, hold k]
    constructor
    · rintro (⟨hderives, hout⟩ | ⟨-, hmem⟩)
      · rcases hderives with heq | hmem
        · exact Or.inl heq
        · rcases hkeys.mp hmem with hfixed | hmem
          · exact Or.inr (hkeys'.mpr (Or.inl hfixed))
          · exact absurd ⟨rfl, hmem⟩ hout
      · exact Or.inr (hkeys'.mpr (Or.inr hmem))
    · rintro (heq | hmem)
      · exact Or.inl ⟨Or.inl heq, fun hand => hbare heq hand.2⟩
      · rcases hkeys'.mp hmem with hfixed | hmem
        · exact Or.inl ⟨Or.inr hfixed.1, fun hand => howner hand.2 hfixed.2⟩
        · exact Or.inr ⟨rfl, hmem⟩
  · rw [mem_ownerMoved]
    simp [hne]

/-- Both directions of a session learn the new egress zone. -/
theorem retimed_moveZone (t : Table) (canonical forwardKey reverseKey : SessionKey) (isReverse : Bool) (zone : UInt32) :
    Retimed t
      (if forwardKey ≠ reverseKey then
        (t.updateByKey forwardKey (moveEgress zone)).updateByKey reverseKey (moveIngress zone)
      else if isReverse then t.updateByKey canonical (moveIngress zone)
      else t.updateByKey canonical (moveEgress zone)) := by
  split_ifs
  · exact (retimed_moveEgress t forwardKey zone).trans (retimed_moveIngress _ reverseKey zone)
  · exact retimed_moveIngress t canonical zone
  · exact retimed_moveEgress t canonical zone

/-- The owner group of a session moves, in the record and in the map. -/
theorem Indexed.reowned (hi : t.Indexed) {h : ℕ} {r : SessionRecord} (hg : t.entries.get h = some r)
    (disposition : ForwardingDisposition) (ownerRgId : Option Int32) :
    Indexed ((match ownerRgId with
      | some newOwner =>
        if newOwner ≠ r.entry.metadata.ownerRgId then
          { t with
            index :=
              if newOwner > 0 then
                (removeOwnerRgIndexEntry t.index r.entry.metadata.ownerRgId h).push (.ownerRg newOwner) h
              else removeOwnerRgIndexEntry t.index r.entry.metadata.ownerRgId h }
        else t
      | none => t).updateEntry h (revalidateEntry disposition ownerRgId)) := by
  cases ownerRgId with
  | none => exact (retimed_updateEntry t h fun r _ => rfl).indexed hi
  | some newOwner =>
    dsimp only
    by_cases hne : newOwner = r.entry.metadata.ownerRgId
    · rw [if_neg (not_not.mpr hne)]
      refine (retimed_updateEntry t h fun r' hg' => ?_).indexed hi
      rw [hg] at hg'
      obtain rfl := Option.some.inj hg'
      subst hne
      rfl
    · rw [if_pos hne]
      exact hi.revalidated hg disposition newOwner

theorem Indexed.revalidateForwardingResolution (hi : t.Indexed) (key : SessionKey) (disposition : ForwardingDisposition)
    (ownerRgId : Option Int32) (newEgressZone : Option UInt32) :
    (t.revalidateForwardingResolution key disposition ownerRgId newEgressZone).Indexed := by
  unfold Table.revalidateForwardingResolution
  split
  · exact hi
  · next h _ =>
    split
    · exact hi
    · next r hg =>
      dsimp only
      -- the owner group first; a new egress zone then moves what no map sees
      have howned := hi.reowned hg disposition ownerRgId
      cases newEgressZone with
      | none => exact howned
      | some zone => exact (retimed_moveZone _ r.key _ _ _ zone).indexed howned

theorem Indexed.rebindForwardEgressZone (hi : t.Indexed) (key : SessionKey) (newEgressZone : UInt32) :
    (t.rebindForwardEgressZone key newEgressZone).Indexed := by
  unfold Table.rebindForwardEgressZone
  split
  · exact hi
  · dsimp only
    split
    · exact hi
    · split_ifs
      · exact hi
      · exact ((retimed_moveEgress t _ newEgressZone).trans (retimed_moveIngress _ _ newEgressZone)).indexed hi
      · exact (retimed_moveEgress t _ newEgressZone).indexed hi

theorem keepsKeys_withOrigin (origin : SessionOrigin) : KeepsKeys (withOrigin origin) := fun _ => ⟨rfl, rfl, rfl⟩

theorem Indexed.demoteSession (hi : t.Indexed) (key : SessionKey) : (t.demoteSession key).Indexed := by
  unfold Table.demoteSession
  split
  · exact hi
  · next he =>
    obtain ⟨h, ⟨rkey, e⟩, hr, rfl⟩ := entryByKey_eq_some he
    have hg := get_of_recordByKey hr
    dsimp only
    rw [updateByKey_eq hr]
    rcases (recordByKey_spec hr).2 with hkey | ⟨hrev, -⟩
    · obtain rfl : rkey = key := hkey
      exact hi.rewrite_recharged hg (withOrigin _) ((keepsKeys_withOrigin _).derives t.config rkey e)
    · -- a reverse session is counted under no origin
      have hfalse : ∀ origin, t.sessionLimitCounted key origin e.metadata.isReverse = false := by
        intro origin
        dsimp only at hrev
        simp [sessionLimitCounted, Config.sessionLimitCounted, hrev]
      rw [hfalse, hfalse]
      refine (retimed_updateEntry t h fun r hg' => ?_).indexed hi
      rw [hg] at hg'
      obtain rfl := Option.some.inj hg'
      exact (keepsKeys_withOrigin _).view_reverse t.config hrev

theorem Indexed.demoteOwnerRg (hi : t.Indexed) (ownerRgId : Int32) : (t.demoteOwnerRg ownerRgId).Indexed := by
  unfold Table.demoteOwnerRg
  split_ifs
  · exact hi
  · exact List.foldlRecOn _ _ hi fun t ht key _ => ht.demoteSession key

/-! ## The expiry pass -/

theorem retimed_align (t : Table) (key : SessionKey) (nat : NatDecision) (nowNs : ℕ) :
    Retimed t (t.alignNodeKeptCompanion key nat nowNs) := by
  unfold alignNodeKeptCompanion
  dsimp only
  split_ifs
  · exact .refl t
  · split
    · exact .refl t
    · split_ifs
      · exact .refl t
      · exact (retimed_updateByKey t _ (keepsView_stampSeen nowNs)).trans (retimed_rebucketAliveEntry _ _ nowNs)

theorem retimed_holdEntry (t : Table) (key : SessionKey) (nowNs : ℕ) (ha : ExpireHaContext) (e : SessionEntry) :
    Retimed t (t.holdEntry key nowNs ha e) := by
  have hsince : ∀ first, KeepsView (heldSince first) := fun _ _ => ⟨rfl, rfl, rfl⟩
  have hheld : ∀ tick first, KeepsView (heldEntry tick first) := fun _ _ _ => ⟨rfl, rfl, rfl⟩
  exact ((retimed_updateByKey t key (hsince _)).trans (retimed_updateByKey _ key (hheld _ _))).trans (retimed_wheel _ _)

theorem Indexed.ageEntry (hi : t.Indexed) (key : SessionKey) (nowNs : ℕ) (e : SessionEntry) (answer : Retention) :
    (t.ageEntry key nowNs e answer).Indexed := by
  cases answer with
  | expire => exact hi.removeEntry key
  | keep lastSeenNs alignCompanion =>
    have hkept := (retimed_updateByKey t key (keepsView_stampSeen lastSeenNs)).trans
      (retimed_rebucketAliveEntry _ key nowNs)
    unfold Table.ageEntry
    dsimp only
    split_ifs
    · exact (hkept.trans (retimed_align _ key e.decision.nat nowNs)).indexed hi
    · exact hkept.indexed hi
  | deferUntil deadlineNs => exact (retimed_rescheduleAt t key _).indexed hi

theorem Indexed.expireLapsed (hi : t.Indexed) (key : SessionKey) (nowNs : ℕ) (pass : GcPass) (e : SessionEntry) :
    (t.expireLapsed key nowNs pass e).Indexed := by
  unfold Table.expireLapsed
  split
  · exact hi.ageEntry key nowNs e _
  · split
    · exact ((retimed_updateByKey t key (keepsView_stampHealed nowNs _)).trans
        (retimed_rebucketAliveEntry _ key nowNs)).indexed hi
    · exact (retimed_holdEntry t key nowNs _ e).indexed hi
    · exact hi.removeEntry key
    · exact hi.removeEntry key
    · exact hi.ageEntry key nowNs e _

theorem Indexed.processHint (hi : t.Indexed) (hint : WheelEntry) (nowNs : ℕ) (pass : GcPass) :
    (t.processHint hint nowNs pass).Indexed := by
  unfold Table.processHint
  split
  · exact hi
  · split_ifs
    · exact hi
    · exact hi.expireLapsed hint.key nowNs pass _
    · exact (retimed_rescheduleAt t hint.key _).indexed hi

theorem Indexed.popFront (hi : t.Indexed) (b nowNs : ℕ) (pass : GcPass) : (t.popFront b nowNs pass).Indexed := by
  unfold Table.popFront
  split
  · exact hi
  · split_ifs
    · exact (retimed_wheel t _).indexed hi
    · exact ((retimed_wheel t _).indexed hi).processHint _ nowNs pass

theorem Indexed.drainBucket (b nowNs : ℕ) (pass : GcPass) (n : ℕ) (hi : t.Indexed) :
    (Table.drainBucket b nowNs pass n t).Indexed := by
  induction n generalizing t with
  | zero => exact hi
  | succ n ih => exact ih (hi.popFront b nowNs pass)

theorem Indexed.advance (nowNs : ℕ) (pass : GcPass) (n : ℕ) (hi : t.Indexed) : (Table.advance nowNs pass n t).Indexed := by
  induction n generalizing t with
  | zero => exact hi
  | succ n ih => exact ih ((retimed_wheel _ _).indexed (hi.drainBucket _ nowNs pass _))

theorem Indexed.expireStaleEntries (hi : t.Indexed) (nowNs : ℕ) (pass : GcPass) :
    (t.expireStaleEntries nowNs pass).Indexed := by
  unfold Table.expireStaleEntries
  split_ifs
  · exact Indexed.advance nowNs pass _ (hi.congr rfl rfl rfl rfl rfl)
  · exact hi

/-! ## Every history -/

theorem indexed_new (config : Config) : (new config).Indexed := by
  refine ⟨fun key h => ?_, HandleIndex.exact_empty, fun c => rfl⟩
  simp [new]

theorem Indexed.step (hi : t.Indexed) (ev : Event) : (t.step ev).Indexed := by
  unfold Table.step
  split
  · exact hi.installWithOrigin _ ev.nowNs
  · exact hi.upsertSyncedWithOrigin _ ev.nowNs
  · exact hi.refreshInPlace _ ev.nowNs
  · exact hi.refreshInPlace _ ev.nowNs
  · exact hi.revalidateForwardingResolution _ _ _ _
  · exact hi.rebindForwardEgressZone _ _
  · exact hi.rebindPair _ _ (keepsKeys_bindPolicy _ _) fun _ => rfl
  · exact hi.rebindPair _ _ keepsKeys_id fun _ => rfl
  · exact hi.demoteOwnerRg _
  · exact hi.removeEntry _
  · exact (retimed_touch t _ ev.nowNs).indexed hi
  · exact (retimed_lookup t _ ev.nowNs).indexed hi
  · exact (retimed_completeHandshake t _ _ ev.nowNs _).indexed hi
  · exact (retimed_restamp t _ ev.nowNs _).indexed hi
  · exact hi.expireStaleEntries ev.nowNs _

theorem run_indexed (config : Config) (history : List Event) : (run config history).Indexed :=
  Runs.run_invariant (indexed_new config) (fun _ ev hi => hi.step ev) history

/-- **The secondary maps and the session counts are exact.** After any history a bucket holds
no handle twice and is not empty, a handle is in the bucket of a key just in case it is the
handle of a stored session that derives the key as it stands, and the count of a zone and a
source is the number of stored sessions that are counted and have this zone and this source. -/
theorem run_secondary_maps_exact (config : Config) (history : List Event) :
    let t := run config history
    (∀ k bucket, t.index.buckets k = some bucket → bucket.Nodup ∧ bucket ≠ [])
      ∧ (∀ k h, h ∈ t.index.members k ↔ ∃ r, t.entries.get h = some r ∧ (t.config.view r).Derives k)
      ∧ (∀ key h, t.keyToHandle.lookup key = some h ↔ ∃ r, t.entries.get h = some r ∧ r.key = key)
      ∧ ∀ zone srcIp, t.srcCounts.get (zone, srcIp) = t.entries.count fun r =>
          t.sessionLimitCounted r.key r.entry.origin r.entry.metadata.isReverse
            && decide (r.entry.metadata.ingressZone = zone) && decide (r.key.srcIp = srcIp) := by
  intro t
  have hi : t.Indexed := run_indexed config history
  refine ⟨fun k bucket hb => ⟨t.index.nodup k bucket hb, t.index.nonempty k bucket hb⟩, hi.index, hi.keyed,
    fun zone srcIp => ?_⟩
  rw [hi.count (zone, srcIp)]
  congr 1
  funext r
  simp only [Config.view, Config.charge, sessionLimitCounted]
  split_ifs with hc
  · simp [hc, Bool.decide_and]
  · simp [hc]

end Table

end Xpf.Sessions
