/-
What the generation guards are for: the order in which installs and deletes of one tuple
arrive does not decide what the receiver is left with.

Both guards of an operation compare its generation with a floor, the larger of what the
bare space and the operation's scoped space store for the tuple. An operation that is not
below its floor is admitted and raises it to its own generation, so the floor is the newest
generation admitted and the last operation admitted is the newest of all. The bare space is
shared by the routing domains, so one domain's floor is also raised by the other's
operations, never lowered.
-/
import Mathlib.Order.MinMax
import Xpf.GenBookkeeping

set_option autoImplicit false

namespace Xpf.GenGuard

variable {K : Type} [DecidableEq K]

/-! ## Recording with room -/

/-- A generation for that key can be stored without evicting or growing. -/
def Room (c : Caps) (s : Space K) (key : K) : Prop := key ∈ s.gens ∨ s.gens.keys.length < c.recvCap

/-- The space once the generation of a key is stored. -/
def Space.recorded (s : Space K) (key : K) (gen : ℕ) (markTomb : Bool) : Space K :=
  Space.remark { s with gens := s.gens.insert key gen } key markTomb

theorem putEvicting_room {c : Caps} {s : Space K} {key : K} (h : Room c s key) (gen : ℕ) :
    putEvicting s key gen c.recvCap
      = ({ space := { s with gens := s.gens.insert key gen }, stored := true, evicted := false }, none) := by
  have hfull : ¬ (key ∉ s.gens ∧ c.recvCap ≤ s.gens.keys.length) := by
    rintro ⟨habsent, hfull⟩
    rcases h with h | h
    · exact habsent h
    · omega
  have hput : putGenBounded s.gens key gen c.recvCap = some (s.gens.insert key gen) := by
    unfold putGenBounded
    by_cases hmem : key ∈ s.gens
    · rw [if_pos hmem]
    · rw [if_neg hmem, if_neg (fun hlen => hfull ⟨hmem, hlen⟩)]
  unfold putEvicting
  simp only [if_neg hfull, hput]
  rfl

theorem recordGen_room {c : Caps} {s : Space K} {key : K} (h : Room c s key) (gen : ℕ) (markTomb : Bool) :
    recordGen c s key gen markTomb = (c, s.recorded key gen markTomb) := by
  simp [recordGen, putGrowing, putGenEvictingTombstones, putEvicting_room h, Space.recorded]

theorem recordScopedGen_room {c : Caps} {s : Scoped K} {skey : ScopedDeleteKey K} (h : Room c s.space skey)
    (gen : ℕ) (markTomb : Bool) :
    (recordScopedGen c s skey gen markTomb).1 = c
      ∧ (recordScopedGen c s skey gen markTomb).2.space = s.space.recorded skey gen markTomb := by
  simp [recordScopedGen, putGrowing, putScopedGenEvictingTombstones, putEvicting_room h, Space.recorded]

@[simp] theorem gen_recorded (s : Space K) (key : K) (gen : ℕ) (markTomb : Bool) :
    (s.recorded key gen markTomb).gen key = gen := by
  simp [Space.recorded, Space.remark, Space.gen]

theorem gen_recorded_ne (s : Space K) {key k : K} (hne : k ≠ key) (gen : ℕ) (markTomb : Bool) :
    (s.recorded key gen markTomb).gen k = s.gen k := by
  simp [Space.recorded, Space.remark, Space.gen, AList.lookup_insert_ne hne]

theorem mem_recorded (s : Space K) (key k : K) (gen : ℕ) (markTomb : Bool) :
    k ∈ (s.recorded key gen markTomb).gens ↔ k = key ∨ k ∈ s.gens := by
  simp [Space.recorded, Space.remark]

theorem mem_gens_of_gen {s : Space K} {key : K} (h : s.gen key ≠ 0) : key ∈ s.gens := by
  rw [← AList.lookup_isSome]
  unfold Space.gen at h
  cases hl : s.gens.lookup key with
  | none => simp [hl] at h
  | some g => rfl

/-! ## The verdicts as a floor -/

theorem installGenGuardCore_pass {s : Space K} {key : K} {incoming : ℕ} (hne : incoming ≠ 0)
    (hle : s.gen key ≤ incoming) : installGenGuardCore s key incoming = some incoming := by
  unfold installGenGuardCore
  simp only
  rw [if_neg (by omega), if_neg hne]

theorem installGenGuardCore_stale {s : Space K} {key : K} {incoming : ℕ} (hne : incoming ≠ 0)
    (hlt : incoming < s.gen key) : installGenGuardCore s key incoming = none := by
  unfold installGenGuardCore
  simp only
  rw [if_pos (by omega)]

theorem refusesDelete_iff {stored deleteGen : ℕ} (hne : deleteGen ≠ 0) :
    refusesDelete stored deleteGen = true ↔ deleteGen < stored := by
  simp only [refusesDelete, Bool.and_eq_true, decide_eq_true_eq]
  omega

/-! ## Operations on one tuple -/

def Op.generation : Op K → ℕ
  | .install _ i => i.generation
  | .delete _ deleteGen _ _ => deleteGen
  | .deleteScoped _ _ deleteGen _ => deleteGen

def Op.isInstall : Op K → Bool
  | .install _ _ => true
  | _ => false

def Op.tuple : Op K → K
  | .install k _ => k
  | .delete k _ _ _ => k
  | .deleteScoped _ k _ _ => k

/-- The routing domain an operation names; a bare delete names none. -/
def Op.domain : Op K → Option UInt32
  | .install _ i => some (scopedLogicalDomain i.routingDomain)
  | .delete _ _ _ _ => none
  | .deleteScoped d _ _ _ => some d

/-- The operation concerns that tuple in that routing domain; a bare delete names none. -/
def Op.About (domain : UInt32) (key : K) : Op K → Prop
  | .install k i => k = key ∧ scopedLogicalDomain i.routingDomain = domain
  | .delete k _ _ _ => k = key
  | .deleteScoped d k _ _ => k = key ∧ d = domain

/-- Nothing around the guards stands in the way of the operation: the dataplane write
succeeds, no configuration epoch is stale and no map grows. -/
def Op.Clean : Op K → Prop
  | .install _ i => i.epochStale = false ∧ i.memoGrowths = 0 ∧ i.writeOk = true ∧ i.epochStaleAfter = false
  | .delete _ _ writeOk _ => writeOk = true
  | .deleteScoped _ _ _ writeOk => writeOk = true

/-- The receiver's capacity and one family, one operation later. -/
def receive (s : Caps × Family K) (op : Op K) : Caps × Family K :=
  ((op.apply s.1 s.2).1, (op.apply s.1 s.2).2.1)

def Op.admitted (op : Op K) (s : Caps × Family K) : Bool := (op.apply s.1 s.2).2.2 ≠ .staleGeneration

/-- What an operation on the tuple in that domain must not be below. -/
def floor (s : Caps × Family K) (domain : UInt32) (key : K) : ℕ :=
  max (s.2.recvGen.gen key) (s.2.recvGenScoped.space.gen ⟨domain, key⟩)

section

variable {s : Caps × Family K} {domain : UInt32} {key : K} {op : Op K}

/-- An operation below its floor is refused and changes nothing. -/
theorem apply_below_floor (hd : op.domain = some domain) (htuple : op.tuple = key) (hne : op.generation ≠ 0)
    (hlt : op.generation < floor s domain key) : op.apply s.1 s.2 = (s.1, s.2, .staleGeneration) := by
  unfold floor at hlt
  rw [lt_max_iff] at hlt
  cases op with
  | install k i =>
    obtain rfl : k = key := htuple
    obtain rfl : scopedLogicalDomain i.routingDomain = domain := Option.some.inj hd
    simp only [Op.generation] at hne hlt
    simp only [Op.apply, installClusterSynced]
    rcases hlt with hb | hs
    · rw [installGenGuardCore_stale hne hb]
    · rw [installGenGuardCore_stale hne hs]
      cases installGenGuardCore s.2.recvGen k i.generation <;> rfl
  | delete k deleteGen writeOk it => simp [Op.domain] at hd
  | deleteScoped d k deleteGen writeOk =>
    obtain rfl : k = key := htuple
    obtain rfl : d = domain := Option.some.inj hd
    simp only [Op.generation] at hne hlt
    have hnone : deleteGenGuardScopedCore s.1 s.2 ⟨d, k⟩ k deleteGen = none := by
      unfold deleteGenGuardScopedCore
      rcases hlt with hb | hs
      · rw [if_pos ((refusesDelete_iff hne).mpr hb), ite_self]
      · rw [if_pos ((refusesDelete_iff hne).mpr hs)]
    simp only [Op.apply, deleteClusterSyncedScoped, hnone]

/-- Both guards of an operation are one comparison with the floor. -/
theorem admitted_iff (hd : op.domain = some domain) (htuple : op.tuple = key) (hne : op.generation ≠ 0) :
    op.admitted s = true ↔ floor s domain key ≤ op.generation := by
  rcases Nat.lt_or_ge op.generation (floor s domain key) with hlt | hle
  · simp [Op.admitted, apply_below_floor hd htuple hne hlt, hlt]
  · refine iff_of_true ?_ hle
    obtain ⟨hbare, hscoped⟩ := max_le_iff.mp hle
    unfold Op.admitted
    cases op with
    | install k i =>
      obtain rfl : k = key := htuple
      obtain rfl : scopedLogicalDomain i.routingDomain = domain := Option.some.inj hd
      simp only [Op.generation] at hne hbare hscoped
      simp only [Op.apply, installClusterSynced, installGenGuardCore_pass hne hbare, installGenGuardCore_pass hne hscoped]
      split_ifs <;> simp
    | delete k deleteGen writeOk it => simp [Op.domain] at hd
    | deleteScoped d k deleteGen writeOk =>
      obtain rfl : k = key := htuple
      obtain rfl : d = domain := Option.some.inj hd
      simp only [Op.generation] at hne hbare hscoped
      have hrefS : ¬ refusesDelete (s.2.recvGenScoped.space.gen ⟨d, k⟩) deleteGen = true := by
        rw [refusesDelete_iff hne]
        omega
      have hrefB : ¬ refusesDelete (s.2.recvGen.gen k) deleteGen = true := by
        rw [refusesDelete_iff hne]
        omega
      simp only [Op.apply, deleteClusterSyncedScoped, deleteGenGuardScopedCore, if_neg hrefS, if_neg hrefB, if_pos hne]
      cases writeOk <;> simp

end

/-- The install that is recorded: it leaves its generation live in both spaces. -/
theorem install_recorded {c : Caps} {f : Family K} {key : K} {i : Install} {domain : UInt32}
    (hdomain : scopedLogicalDomain i.routingDomain = domain) (hne : i.generation ≠ 0)
    (hbare : f.recvGen.gen key ≤ i.generation)
    (hscoped : f.recvGenScoped.space.gen ⟨domain, key⟩ ≤ i.generation) (hepoch : i.epochStale = false)
    (hwrite : i.writeOk = true) (hafter : i.epochStaleAfter = false)
    (hroom : Room ((fun c : Caps => c.growRecvCap.1)^[i.memoGrowths] c) f.recvGen key)
    (hscopedRoom : Room ((fun c : Caps => c.growRecvCap.1)^[i.memoGrowths] c) f.recvGenScoped.space ⟨domain, key⟩) :
    (installClusterSynced c f key i).1 = (fun c : Caps => c.growRecvCap.1)^[i.memoGrowths] c
      ∧ (installClusterSynced c f key i).2.1.recvGen = f.recvGen.recorded key i.generation false
      ∧ (installClusterSynced c f key i).2.1.recvGenScoped.space
          = f.recvGenScoped.space.recorded ⟨domain, key⟩ i.generation false
      ∧ (installClusterSynced c f key i).2.1.sessions = f.sessions.insert ⟨domain, key⟩
      ∧ (installClusterSynced c f key i).2.2 = .applied := by
  subst hdomain
  have hcap := recordScopedGen_room hscopedRoom i.generation false
  unfold installClusterSynced
  simp only [installGenGuardCore_pass hne hbare, installGenGuardCore_pass hne hscoped, hepoch, hwrite, hafter,
    Bool.false_eq_true, if_false, Bool.not_true, recordInstalledGenCore, recordInstalledGenScopedCore, hne,
    putSession, recordGen_room hroom, hcap]
  simp

/-- The scoped delete that is admitted: a tombstone in its scoped space, and a bare entry
that exists is raised with it. -/
theorem deleteScoped_recorded {c : Caps} {f : Family K} {key : K} {domain : UInt32} {deleteGen : ℕ}
    (hne : deleteGen ≠ 0) (hbare : f.recvGen.gen key ≤ deleteGen)
    (hscoped : f.recvGenScoped.space.gen ⟨domain, key⟩ ≤ deleteGen)
    (hroom : Room c f.recvGenScoped.space ⟨domain, key⟩) (writeOk : Bool) :
    (deleteClusterSyncedScoped c f domain key deleteGen writeOk).1 = c
      ∧ (deleteClusterSyncedScoped c f domain key deleteGen writeOk).2.1.recvGen
          = (if f.recvGen.gen key = 0 then f.recvGen else f.recvGen.recorded key deleteGen true)
      ∧ (deleteClusterSyncedScoped c f domain key deleteGen writeOk).2.1.recvGenScoped.space
          = f.recvGenScoped.space.recorded ⟨domain, key⟩ deleteGen true
      ∧ (writeOk = true → (deleteClusterSyncedScoped c f domain key deleteGen writeOk).2.1.sessions
          = f.sessions.filter fun k => k ≠ ⟨domain, key⟩)
      ∧ (deleteClusterSyncedScoped c f domain key deleteGen writeOk).2.2 ≠ .staleGeneration := by
  have hcap := recordScopedGen_room hroom deleteGen true
  have hrefS : refusesDelete (f.recvGenScoped.space.gen ⟨domain, key⟩) deleteGen = false := by
    rw [← Bool.not_eq_true, refusesDelete_iff hne]
    omega
  have hrefB : refusesDelete (f.recvGen.gen key) deleteGen = false := by
    rw [← Bool.not_eq_true, refusesDelete_iff hne]
    omega
  unfold deleteClusterSyncedScoped deleteGenGuardScopedCore
  by_cases hzero : f.recvGen.gen key = 0
  · rw [hzero] at hrefB
    cases writeOk <;> simp [hrefS, hrefB, hne, hzero, tombstoneScopedCore, hcap, deleteClusterScoped]
  · have hbareRoom : Room c f.recvGen key := Or.inl (mem_gens_of_gen hzero)
    cases writeOk <;>
      simp [hrefS, hrefB, hne, hzero, hbare, tombstoneScopedCore, tombstoneBareCore, hcap, recordGen_room hbareRoom,
        deleteClusterScoped]

/-! ## One tuple in one domain -/

/-- The receiver knows of the tuple only what has been admitted for it in one domain, and
`newest` is the newest generation of that, zero when there is none. -/
structure Ordered (s : Caps × Family K) (domain : UInt32) (key : K) (newest : ℕ) : Prop where
  consistent : s.2.Consistent
  only : ∀ skey ∈ s.2.recvGenScoped.space.gens, skey.key = key → skey = ⟨domain, key⟩
  room : Room s.1 s.2.recvGen key
  scopedRoom : Room s.1 s.2.recvGenScoped.space ⟨domain, key⟩
  bare : s.2.recvGen.gen key ≤ newest
  scopedGen : s.2.recvGenScoped.space.gen ⟨domain, key⟩ ≤ newest
  -- a live scoped entry refuses no bare delete, so what is only in the scoped space is a tombstone
  reached : newest ≠ 0 → s.2.recvGen.gen key = newest
    ∨ (s.2.recvGenScoped.space.gen ⟨domain, key⟩ = newest ∧ (⟨domain, key⟩ : ScopedDeleteKey K) ∈ s.2.recvGenScoped.space.tombs.order)

section

variable {s : Caps × Family K} {domain : UInt32} {key : K} {newest : ℕ}

/-- The scoped keys a bare delete of the tuple reaches. -/
theorem Ordered.mem_keys (h : Ordered s domain key newest) (k : ScopedDeleteKey K) :
    k ∈ ScopedTupleIndex.keys s.2.recvGenScoped.byTuple key ↔
      k = ⟨domain, key⟩ ∧ (⟨domain, key⟩ : ScopedDeleteKey K) ∈ s.2.recvGenScoped.space.gens := by
  rw [h.consistent.scopedSpace.inverse]
  constructor
  · rintro ⟨hk, hkey⟩
    obtain rfl := h.only k hk hkey
    exact ⟨rfl, hk⟩
  · rintro ⟨rfl, hk⟩
    exact ⟨hk, rfl⟩

/-- An operation older than the newest one admitted is refused and changes nothing. -/
theorem Ordered.refuses (h : Ordered s domain key newest) {op : Op K} (habout : op.About domain key)
    (hne : op.generation ≠ 0) (hlt : op.generation < newest) : op.apply s.1 s.2 = (s.1, s.2, .staleGeneration) := by
  have hreached := h.reached (by omega)
  have hfloor : op.generation < floor s domain key := by
    unfold floor
    omega
  cases op with
  | install k i => exact apply_below_floor (congrArg some habout.2) habout.1 hne hfloor
  | delete k deleteGen writeOk it =>
    obtain rfl := habout
    simp only [Op.generation] at hne hlt
    simp only [Op.apply, deleteClusterSynced]
    have hnone : deleteGenGuardCore s.1 s.2 it k deleteGen = none := by
      unfold deleteGenGuardCore
      simp only
      rcases hreached with hb | ⟨hs, htomb⟩
      · rw [if_pos ((refusesDelete_iff hne).mpr (by omega))]
      · have hmem := (h.mem_keys ⟨domain, k⟩).mpr ⟨rfl, h.consistent.scopedSpace.tombstoned _ htomb⟩
        have hany : ((ScopedTupleIndex.keys s.2.recvGenScoped.byTuple k).any fun skey =>
            decide (skey ∈ s.2.recvGenScoped.space.tombs.order)
              && refusesDelete (s.2.recvGenScoped.space.gen skey) deleteGen) = true := by
          refine List.any_eq_true.mpr ⟨_, hmem, ?_⟩
          rw [Bool.and_eq_true, decide_eq_true_eq, refusesDelete_iff hne]
          exact ⟨htomb, hs ▸ hlt⟩
        rw [if_pos hany, ite_self]
    rw [hnone]
  | deleteScoped d k deleteGen writeOk => exact apply_below_floor (congrArg some habout.2) habout.1 hne hfloor

/-- What a bare delete of the tuple ranges over. -/
theorem Ordered.order_keys (h : Ordered s domain key newest) (it : Iteration (ScopedDeleteKey K)) :
    it.order (ScopedTupleIndex.keys s.2.recvGenScoped.byTuple key)
      = if (⟨domain, key⟩ : ScopedDeleteKey K) ∈ s.2.recvGenScoped.space.gens then [⟨domain, key⟩] else [] := by
  have hnodup : (ScopedTupleIndex.keys s.2.recvGenScoped.byTuple key).Nodup := AList.keys_nodup _
  have hperm := it.perm (ScopedTupleIndex.keys s.2.recvGenScoped.byTuple key)
  split_ifs with hmem
  · refine List.perm_singleton.mp (hperm.trans ?_)
    rw [List.perm_ext_iff_of_nodup hnodup (List.nodup_singleton _)]
    intro k
    rw [h.mem_keys, List.mem_singleton]
    exact and_iff_left hmem
  · have hnil : ScopedTupleIndex.keys s.2.recvGenScoped.byTuple key = [] := by
      refine List.eq_nil_iff_forall_not_mem.mpr fun k hk => ?_
      exact hmem ((h.mem_keys k).mp hk).2
    rw [hnil] at hperm ⊢
    exact hperm.eq_nil

/-- A bare delete newer than everything admitted: a tombstone in the bare space, and in the
scoped space where it has the tuple. -/
theorem Ordered.delete_recorded (h : Ordered s domain key newest) {deleteGen : ℕ} (hlt : newest < deleteGen)
    (it : Iteration (ScopedDeleteKey K)) :
    (deleteClusterSynced s.1 s.2 it key deleteGen true).1 = s.1
      ∧ (deleteClusterSynced s.1 s.2 it key deleteGen true).2.1.recvGen = s.2.recvGen.recorded key deleteGen true
      ∧ (deleteClusterSynced s.1 s.2 it key deleteGen true).2.1.recvGenScoped.space
          = (if (⟨domain, key⟩ : ScopedDeleteKey K) ∈ s.2.recvGenScoped.space.gens then
              s.2.recvGenScoped.space.recorded ⟨domain, key⟩ deleteGen true else s.2.recvGenScoped.space)
      ∧ (deleteClusterSynced s.1 s.2 it key deleteGen true).2.1.sessions
          = s.2.sessions.filter fun skey => skey.key ≠ key := by
  have hne : deleteGen ≠ 0 := by omega
  have hbare : refusesDelete (s.2.recvGen.gen key) deleteGen = false := by
    rw [← Bool.not_eq_true, refusesDelete_iff hne]
    have := h.bare
    omega
  have hany : ((ScopedTupleIndex.keys s.2.recvGenScoped.byTuple key).any fun skey =>
      decide (skey ∈ s.2.recvGenScoped.space.tombs.order)
        && refusesDelete (s.2.recvGenScoped.space.gen skey) deleteGen) = false := by
    refine List.any_eq_false.mpr fun k hk => ?_
    obtain ⟨rfl, -⟩ := (h.mem_keys k).mp hk
    have hle := h.scopedGen
    rw [Bool.and_eq_true, refusesDelete_iff hne]
    omega
  have hnewer : ¬ deleteGen < s.2.recvGenScoped.space.gen ⟨domain, key⟩ := by
    have := h.scopedGen
    omega
  have hcap := recordScopedGen_room h.scopedRoom deleteGen true
  unfold deleteClusterSynced deleteGenGuardCore
  by_cases hmem : (⟨domain, key⟩ : ScopedDeleteKey K) ∈ s.2.recvGenScoped.space.gens
  · simp [hbare, hany, hne, h.order_keys, hmem, tombstoneBareCore, recordGen_room h.room, tombstoneTuple, hnewer,
      tombstoneScopedCore, hcap, deleteWithCompanions]
  · simp [hbare, hany, hne, h.order_keys, hmem, tombstoneBareCore, recordGen_room h.room, tombstoneTuple,
      deleteWithCompanions]

/-- An operation newer than everything admitted is admitted, and decides what is installed. -/
theorem Ordered.admits (h : Ordered s domain key newest) {op : Op K} (habout : op.About domain key) (hclean : op.Clean)
    (hlt : newest < op.generation) :
    Ordered (receive s op) domain key op.generation
      ∧ ((⟨domain, key⟩ : ScopedDeleteKey K) ∈ (receive s op).2.sessions ↔ op.isInstall = true) := by
  have hcons : (receive s op).2.Consistent := (op.apply_keeps s.1 h.consistent).1
  have hne : op.generation ≠ 0 := by omega
  have hbare := h.bare
  have hscoped := h.scopedGen
  cases op with
  | install k i =>
    obtain ⟨rfl, hdomain⟩ := habout
    obtain ⟨hepoch, hgrow, hwrite, hafter⟩ := hclean
    simp only [Op.generation] at hlt hne ⊢
    have hbare' : s.2.recvGen.gen k ≤ i.generation := by omega
    have hscoped' : s.2.recvGenScoped.space.gen ⟨domain, k⟩ ≤ i.generation := by omega
    obtain ⟨-, hb, hs, hsessions, -⟩ := install_recorded (c := s.1) (f := s.2) hdomain hne hbare' hscoped' hepoch
      hwrite hafter (by rw [hgrow]; exact h.room) (by rw [hgrow]; exact h.scopedRoom)
    simp only [receive, Op.apply] at hcons ⊢
    refine ⟨⟨hcons, ?_, ?_, ?_, ?_, ?_, ?_⟩, ?_⟩
    · intro k' hk' hkey
      rw [hs, mem_recorded] at hk'
      rcases hk' with rfl | hk'
      · rfl
      · exact h.only k' hk' hkey
    · rw [hb]
      exact Or.inl ((mem_recorded _ _ _ _ _).mpr (Or.inl rfl))
    · rw [hs]
      exact Or.inl ((mem_recorded _ _ _ _ _).mpr (Or.inl rfl))
    · rw [hb, gen_recorded]
    · rw [hs, gen_recorded]
    · exact fun _ => Or.inl (by rw [hb, gen_recorded])
    · rw [hsessions]
      simp [Op.isInstall]
  | delete k deleteGen writeOk it =>
    obtain rfl := habout
    obtain rfl := hclean
    simp only [Op.generation] at hlt hne ⊢
    obtain ⟨hc, hb, hs, hsessions⟩ := h.delete_recorded hlt it
    simp only [receive, Op.apply] at hcons ⊢
    refine ⟨⟨hcons, ?_, ?_, ?_, ?_, ?_, ?_⟩, ?_⟩
    · intro k' hk' hkey
      rw [hs] at hk'
      split_ifs at hk' with hmem
      · rw [mem_recorded] at hk'
        rcases hk' with rfl | hk'
        · rfl
        · exact h.only k' hk' hkey
      · exact h.only k' hk' hkey
    · rw [hb]
      exact Or.inl ((mem_recorded _ _ _ _ _).mpr (Or.inl rfl))
    · rw [hs, hc]
      split_ifs with hmem
      · exact Or.inl ((mem_recorded _ _ _ _ _).mpr (Or.inl rfl))
      · exact h.scopedRoom
    · rw [hb, gen_recorded]
    · rw [hs]
      split_ifs with hmem
      · rw [gen_recorded]
      · omega
    · exact fun _ => Or.inl (by rw [hb, gen_recorded])
    · rw [hsessions]
      simp [Op.isInstall]
  | deleteScoped d k deleteGen writeOk =>
    obtain ⟨rfl, rfl⟩ := habout
    obtain rfl := hclean
    simp only [Op.generation] at hlt hne ⊢
    obtain ⟨hc, hb, hs, hsessions, -⟩ := deleteScoped_recorded (c := s.1) (f := s.2) hne (by omega) (by omega) h.scopedRoom true
    simp only [receive, Op.apply] at hcons ⊢
    refine ⟨⟨hcons, ?_, ?_, ?_, ?_, ?_, ?_⟩, ?_⟩
    · intro k' hk' hkey
      rw [hs, mem_recorded] at hk'
      rcases hk' with rfl | hk'
      · rfl
      · exact h.only k' hk' hkey
    · rw [hb, hc]
      split_ifs with hzero
      · exact h.room
      · exact Or.inl ((mem_recorded _ _ _ _ _).mpr (Or.inl rfl))
    · rw [hs]
      exact Or.inl ((mem_recorded _ _ _ _ _).mpr (Or.inl rfl))
    · rw [hb]
      split_ifs with hzero
      · omega
      · rw [gen_recorded]
    · rw [hs, gen_recorded]
    · refine fun _ => Or.inr ⟨by rw [hs, gen_recorded], ?_⟩
      rw [hs]
      exact mem_mark.mpr (Or.inl rfl)
    · rw [hsessions rfl]
      simp [Op.isInstall]

/-- After any delivery, the newest generation delivered is the newest admitted, and its
operation has decided what is installed. -/
theorem Ordered.run_newest (h : Ordered s domain key 0) {ops : List (Op K)} (habout : ∀ op ∈ ops, op.About domain key)
    (hclean : ∀ op ∈ ops, op.Clean) (hne : ∀ op ∈ ops, op.generation ≠ 0) (hnodup : (ops.map Op.generation).Nodup) :
    ∃ m, Ordered (Runs.run receive s ops) domain key m
      ∧ (∀ op ∈ ops, op.generation ≤ m)
      ∧ (m ≠ 0 → m ∈ ops.map Op.generation)
      ∧ ∀ op ∈ ops, op.generation = m →
          ((⟨domain, key⟩ : ScopedDeleteKey K) ∈ (Runs.run receive s ops).2.sessions ↔ op.isInstall = true) := by
  induction ops using List.reverseRecOn with
  | nil => exact ⟨0, h, by simp, by simp, by simp⟩
  | append_singleton before op ih =>
    simp only [List.mem_append, List.mem_singleton] at habout hclean hne
    rw [List.map_append, List.nodup_append] at hnodup
    obtain ⟨hbefore, -, hfresh⟩ := hnodup
    obtain ⟨m, hm, hle, hreached, hdecided⟩ := ih (fun o ho => habout o (Or.inl ho)) (fun o ho => hclean o (Or.inl ho))
      (fun o ho => hne o (Or.inl ho)) hbefore
    have hop := hne op (Or.inr rfl)
    -- a generation arrives once, so the new one is not the newest already
    have hdistinct : op.generation ≠ m := by
      intro heq
      exact hfresh m (hreached (heq ▸ hop)) op.generation (by simp) heq.symm
    rw [Runs.run_snoc]
    rcases Nat.lt_or_gt_of_ne hdistinct with hlt | hgt
    · have hrefused : receive (Runs.run receive s before) op = Runs.run receive s before := by
        simp only [receive, hm.refuses (habout op (Or.inr rfl)) hop hlt]
      rw [hrefused]
      refine ⟨m, hm, ?_, ?_, ?_⟩
      · intro o ho
        rcases List.mem_append.mp ho with ho | ho
        · exact hle o ho
        · rw [List.mem_singleton.mp ho]
          omega
      · intro hne0
        rw [List.map_append]
        exact List.mem_append_left _ (hreached hne0)
      · intro o ho heq
        rcases List.mem_append.mp ho with ho | ho
        · exact hdecided o ho heq
        · rw [List.mem_singleton.mp ho] at heq
          omega
    · obtain ⟨hnew, hinstalled⟩ := hm.admits (habout op (Or.inr rfl)) (hclean op (Or.inr rfl)) hgt
      refine ⟨op.generation, hnew, ?_, ?_, ?_⟩
      · intro o ho
        rcases List.mem_append.mp ho with ho | ho
        · have := hle o ho
          omega
        · rw [List.mem_singleton.mp ho]
      · intro _
        simp
      · intro o ho heq
        rcases List.mem_append.mp ho with ho | ho
        · have := hle o ho
          omega
        · rw [List.mem_singleton.mp ho]
          exact hinstalled

end

/-- The receiver has never heard of the tuple and has room for it. -/
structure Unheard (s : Caps × Family K) (key : K) : Prop where
  consistent : s.2.Consistent
  bare : key ∉ s.2.recvGen.gens
  scopedGens : ∀ skey ∈ s.2.recvGenScoped.space.gens, skey.key ≠ key
  room : s.2.recvGen.gens.keys.length < s.1.recvCap
  scopedRoom : s.2.recvGenScoped.space.gens.keys.length < s.1.recvCap

theorem gen_of_notMem {s : Space K} {key : K} (h : key ∉ s.gens) : s.gen key = 0 := by
  by_contra hne
  exact h (mem_gens_of_gen hne)

theorem Unheard.ordered {s : Caps × Family K} {key : K} (h : Unheard s key) (domain : UInt32) :
    Ordered s domain key 0 where
  consistent := h.consistent
  only skey hskey hkey := absurd hkey (h.scopedGens skey hskey)
  room := Or.inr h.room
  scopedRoom := Or.inr h.scopedRoom
  bare := (gen_of_notMem h.bare).le
  scopedGen := (gen_of_notMem fun hmem => h.scopedGens _ hmem rfl).le
  reached hne := absurd rfl hne

/-- Whether an operation that its guards let pass is recorded. -/
def Op.completes : Op K → Bool
  | .install _ i => !i.epochStale && i.writeOk && !i.epochStaleAfter
  | _ => true

/-- How many of two domains the scoped space still has to make room for. -/
def missing (s : Space (ScopedDeleteKey K)) (A B : UInt32) (key : K) : ℕ :=
  (if (⟨A, key⟩ : ScopedDeleteKey K) ∈ s.gens then 0 else 1) + (if (⟨B, key⟩ : ScopedDeleteKey K) ∈ s.gens then 0 else 1)

/-- Production capacity, with room for the tuple in both domains. -/
structure Roomy (s : Caps × Family K) (A B : UInt32) (key : K) : Prop where
  production : s.1.genGuardMapCeilingOverride = 0
  bare : Room s.1 s.2.recvGen key
  both : s.2.recvGenScoped.space.gens.keys.length + missing s.2.recvGenScoped.space A B key ≤ s.1.recvCap

theorem Caps.le_maxCap {c : Caps} (h : c.genGuardMapCeilingOverride = 0) : genGuardMapDefaultCap ≤ c.maxCap := by
  unfold Caps.maxCap genGuardMapDefaultCap genGuardMapCap
  rw [if_neg (by simp [h])]
  repeat' split
  all_goals omega

/-- Without an injected ceiling, asking for growth never shrinks what fits. -/
theorem Caps.recvCap_le_grow {c : Caps} (h : c.genGuardMapCeilingOverride = 0) :
    c.growRecvCap.1.genGuardMapCeilingOverride = 0 ∧ c.recvCap ≤ c.growRecvCap.1.recvCap := by
  have hle := Caps.le_maxCap h
  have hmax : ∀ cap, Caps.maxCap { c with recvGenGuardCap := cap } = c.maxCap := fun _ => rfl
  simp only [genGuardMapDefaultCap] at hle
  refine ⟨?_, ?_⟩
  · unfold Caps.growRecvCap
    simp only
    split_ifs <;> exact h
  · unfold Caps.growRecvCap
    simp only
    split_ifs <;> simp only [Caps.recvCap, hmax, genGuardMapDefaultCap] at * <;> split_ifs <;> omega

theorem Caps.recvCap_le_grows {c : Caps} (h : c.genGuardMapCeilingOverride = 0) (n : ℕ) :
    ((fun c : Caps => c.growRecvCap.1)^[n] c).genGuardMapCeilingOverride = 0
      ∧ c.recvCap ≤ ((fun c : Caps => c.growRecvCap.1)^[n] c).recvCap := by
  induction n with
  | zero => exact ⟨h, le_rfl⟩
  | succ n ih =>
    rw [Function.iterate_succ_apply']
    obtain ⟨hoverride, hle⟩ := Caps.recvCap_le_grow ih.1
    exact ⟨hoverride, ih.2.trans hle⟩

theorem Roomy.scopedRoom {s : Caps × Family K} {A B D : UInt32} {key : K} (h : Roomy s A B key) (hD : D = A ∨ D = B) :
    Room s.1 s.2.recvGenScoped.space ⟨D, key⟩ := by
  have hboth := h.both
  by_cases hmem : (⟨D, key⟩ : ScopedDeleteKey K) ∈ s.2.recvGenScoped.space.gens
  · exact Or.inl hmem
  · refine Or.inr ?_
    unfold missing at hboth
    rcases hD with rfl | rfl
    · rw [if_neg hmem] at hboth
      omega
    · rw [if_neg hmem] at hboth
      omega

theorem length_recorded (s : Space K) (key : K) (gen : ℕ) (markTomb : Bool) :
    (s.recorded key gen markTomb).gens.keys.length = s.gens.keys.length + if key ∈ s.gens then 0 else 1 := by
  have hkeys : (s.recorded key gen markTomb).gens.keys = key :: s.gens.keys.erase key := AList.keys_insert _
  rw [hkeys, List.length_cons]
  split_ifs with hmem
  · rw [List.length_erase_of_mem hmem]
    have := List.length_pos_of_mem hmem
    omega
  · rw [List.erase_of_not_mem hmem]

/-- Storing the tuple in one of the two domains takes the room that was kept for it. -/
theorem length_missing_recorded (s : Space (ScopedDeleteKey K)) {A B D : UInt32} (key : K) (hD : D = A ∨ D = B)
    (gen : ℕ) (markTomb : Bool) :
    (s.recorded ⟨D, key⟩ gen markTomb).gens.keys.length + missing (s.recorded ⟨D, key⟩ gen markTomb) A B key
      ≤ s.gens.keys.length + missing s A B key := by
  rw [length_recorded]
  simp only [missing, mem_recorded, ScopedDeleteKey.mk.injEq, and_true]
  rcases hD with rfl | rfl
  · simp only [true_or, if_true]
    split_ifs <;> simp_all
  · simp only [true_or, if_true]
    split_ifs <;> simp_all

section

variable {s : Caps × Family K} {A B D : UInt32} {key : K} {op : Op K}

/-- What an operation leaves in the two spaces: nothing new, or its generation in its scoped
space and, unless it is a delete of a tuple the bare space does not track, in the bare one. -/
theorem receive_spaces (h : Roomy s A B key) (hD : D = A ∨ D = B) (hd : op.domain = some D) (htuple : op.tuple = key)
    (hne : op.generation ≠ 0) :
    ((receive s op).1.genGuardMapCeilingOverride = 0 ∧ s.1.recvCap ≤ (receive s op).1.recvCap)
      ∧ ((op.completes = true ∧ floor s D key ≤ op.generation
            ∧ (∃ tomb, (receive s op).2.recvGenScoped.space = s.2.recvGenScoped.space.recorded ⟨D, key⟩ op.generation tomb)
            ∧ ((op.isInstall = false ∧ s.2.recvGen.gen key = 0 ∧ (receive s op).2.recvGen = s.2.recvGen)
              ∨ ((op.isInstall = false → s.2.recvGen.gen key ≠ 0)
                ∧ ∃ tomb, (receive s op).2.recvGen = s.2.recvGen.recorded key op.generation tomb)))
          ∨ ((op.completes = true → op.generation < floor s D key)
            ∧ (receive s op).2.recvGenScoped.space = s.2.recvGenScoped.space
            ∧ (receive s op).2.recvGen = s.2.recvGen)) := by
  rcases Nat.lt_or_ge op.generation (floor s D key) with hlt | hle
  · have hsame : receive s op = s := by
      unfold receive
      rw [apply_below_floor hd htuple hne hlt]
    rw [hsame]
    exact ⟨⟨h.production, le_rfl⟩, Or.inr ⟨fun _ => hlt, rfl, rfl⟩⟩
  · obtain ⟨hbare, hscoped⟩ := max_le_iff.mp hle
    cases op with
    | install k i =>
      obtain rfl : k = key := htuple
      have hdomain : scopedLogicalDomain i.routingDomain = D := Option.some.inj hd
      simp only [Op.generation] at hne hbare hscoped hle ⊢
      obtain ⟨hoverride, hgrow⟩ := Caps.recvCap_le_grows h.production i.memoGrowths
      have hroom : Room ((fun c : Caps => c.growRecvCap.1)^[i.memoGrowths] s.1) s.2.recvGen k :=
        h.bare.imp_right fun hlen => hlen.trans_le hgrow
      have hscopedRoom : Room ((fun c : Caps => c.growRecvCap.1)^[i.memoGrowths] s.1) s.2.recvGenScoped.space ⟨D, k⟩ :=
        (h.scopedRoom hD).imp_right fun hlen => hlen.trans_le hgrow
      by_cases hdone : (Op.install k i).completes = true
      · obtain ⟨⟨hepoch, hwrite⟩, hafter⟩ : (i.epochStale = false ∧ i.writeOk = true) ∧ i.epochStaleAfter = false := by
          simpa [Op.completes] using hdone
        obtain ⟨hc, hb, hs, -, -⟩ := install_recorded hdomain hne hbare hscoped hepoch hwrite hafter hroom hscopedRoom
        simp only [receive, Op.apply, hc, hb, hs]
        refine ⟨⟨hoverride, hgrow⟩, Or.inl ⟨hdone, hle, ⟨false, rfl⟩, Or.inr ⟨?_, ⟨false, rfl⟩⟩⟩⟩
        simp [Op.isInstall]
      · -- a stale epoch or a failed write: only the cap may have grown
        subst hdomain
        simp only [receive, Op.apply, installClusterSynced, installGenGuardCore_pass hne hbare,
          installGenGuardCore_pass hne hscoped]
        split_ifs with h₁ h₂ h₃
        · exact ⟨⟨h.production, le_rfl⟩, Or.inr ⟨fun hdone' => absurd hdone' hdone, rfl, rfl⟩⟩
        · exact ⟨⟨hoverride, hgrow⟩, Or.inr ⟨fun hdone' => absurd hdone' hdone, rfl, rfl⟩⟩
        · exact ⟨⟨hoverride, hgrow⟩, Or.inr ⟨fun hdone' => absurd hdone' hdone, rfl, rfl⟩⟩
        · refine absurd ?_ hdone
          simp_all [Op.completes]
    | delete k deleteGen writeOk it => simp [Op.domain] at hd
    | deleteScoped d k deleteGen writeOk =>
      obtain rfl : k = key := htuple
      obtain rfl : d = D := Option.some.inj hd
      simp only [Op.generation] at hne hbare hscoped hle ⊢
      obtain ⟨hc, hb, hs, -, -⟩ := deleteScoped_recorded hne hbare hscoped (h.scopedRoom hD) writeOk
      simp only [receive, Op.apply, hc, hb, hs]
      refine ⟨⟨h.production, le_rfl⟩, Or.inl ⟨rfl, hle, ⟨true, rfl⟩, ?_⟩⟩
      split_ifs with hzero
      · exact Or.inl ⟨rfl, hzero, rfl⟩
      · exact Or.inr ⟨fun _ => hzero, true, rfl⟩

theorem receive_roomy (h : Roomy s A B key) (hD : D = A ∨ D = B) (hd : op.domain = some D) (htuple : op.tuple = key)
    (hne : op.generation ≠ 0) : Roomy (receive s op) A B key := by
  obtain ⟨⟨hoverride, hgrow⟩, hspaces⟩ := receive_spaces h hD hd htuple hne
  have hboth := h.both
  have hkeep : Room (receive s op).1 s.2.recvGen key := h.bare.imp_right fun hlen => hlen.trans_le hgrow
  rcases hspaces with ⟨-, -, ⟨tomb, hs⟩, hb⟩ | ⟨-, hs, hb⟩
  · refine ⟨hoverride, ?_, ?_⟩
    · rcases hb with ⟨-, -, hb⟩ | ⟨-, tomb', hb⟩
      · rw [hb]
        exact hkeep
      · rw [hb]
        exact Or.inl ((mem_recorded _ _ _ _ _).mpr (Or.inl rfl))
    · rw [hs]
      exact ((length_missing_recorded _ key hD _ _).trans hboth).trans hgrow
  · refine ⟨hoverride, ?_, ?_⟩
    · rw [hb]
      exact hkeep
    · rw [hs]
      exact hboth.trans hgrow

/-- An operation raises the floor of its own domain to its generation, if it completes. -/
theorem receive_floor (h : Roomy s A B key) (hD : D = A ∨ D = B) (hd : op.domain = some D) (htuple : op.tuple = key)
    (hne : op.generation ≠ 0) :
    floor (receive s op) D key = if op.completes then max (floor s D key) op.generation else floor s D key := by
  obtain ⟨-, hspaces⟩ := receive_spaces h hD hd htuple hne
  rcases hspaces with ⟨hdone, hle, ⟨tomb, hs⟩, hb⟩ | ⟨hdone, hs, hb⟩
  · rw [if_pos hdone, max_eq_right hle]
    obtain ⟨hbare, -⟩ := max_le_iff.mp hle
    unfold floor
    rw [hs, gen_recorded]
    rcases hb with ⟨-, hzero, hb⟩ | ⟨-, tomb', hb⟩
    · rw [hb]
      omega
    · rw [hb, gen_recorded, max_self]
  · have hsame : floor (receive s op) D key = floor s D key := by
      unfold floor
      rw [hs, hb]
    rw [hsame]
    split_ifs with hc
    · exact (max_eq_left (hdone hc).le).symm
    · rfl

/-- The floor of the other domain moves by at most the generation of the operation, and not
at all where a delete meets a tuple that the bare space does not track. -/
theorem receive_floor_other (h : Roomy s A B key) (hD : D = A ∨ D = B) (hd : op.domain = some D)
    (htuple : op.tuple = key) (hne : op.generation ≠ 0) {E : UInt32} (hE : E ≠ D) :
    floor s E key ≤ floor (receive s op) E key
      ∧ floor (receive s op) E key ≤ max (floor s E key) op.generation
      ∧ (op.isInstall = false → s.2.recvGen.gen key = 0 →
          floor (receive s op) E key = floor s E key ∧ (receive s op).2.recvGen.gen key = 0) := by
  obtain ⟨-, hspaces⟩ := receive_spaces h hD hd htuple hne
  have hother : (⟨E, key⟩ : ScopedDeleteKey K) ≠ ⟨D, key⟩ := fun heq => hE (ScopedDeleteKey.mk.inj heq).1
  rcases hspaces with ⟨-, hle, ⟨tomb, hs⟩, hb⟩ | ⟨-, hs, hb⟩
  · obtain ⟨hbare, -⟩ := max_le_iff.mp hle
    unfold floor
    rw [hs, gen_recorded_ne _ hother]
    rcases hb with ⟨-, -, hb⟩ | ⟨htracked, tomb', hb⟩
    · rw [hb]
      exact ⟨le_rfl, le_max_left _ _, fun _ hzero => ⟨rfl, hzero⟩⟩
    · rw [hb, gen_recorded]
      refine ⟨?_, ?_, fun hdel hzero => absurd hzero (htracked hdel)⟩ <;> omega
  · unfold floor
    rw [hs, hb]
    exact ⟨le_rfl, le_max_left _ _, fun _ hzero => ⟨rfl, hzero⟩⟩

end

/-- The operations of a delivery that name a domain. -/
def inDomain (domain : UInt32) (ops : List (Op K)) : List (Op K) := ops.filter fun op => op.domain = some domain

/-- Side by side: a delivery for two domains, and only the part of it that is for one. The
floor of that domain is the same in both, but for what the other domain's operations have
raised it by. -/
theorem run_inDomain {s : Caps × Family K} {A B : UInt32} {key : K} (h : Roomy s A B key) (hAB : A ≠ B)
    {ops : List (Op K)} (htuple : ∀ op ∈ ops, op.tuple = key)
    (hdomain : ∀ op ∈ ops, op.domain = some A ∨ op.domain = some B) (hne : ∀ op ∈ ops, op.generation ≠ 0) (bound : ℕ) :
    Roomy (Runs.run receive s ops) A B key ∧ Roomy (Runs.run receive s (inDomain A ops)) A B key
      ∧ floor (Runs.run receive s (inDomain A ops)) A key ≤ floor (Runs.run receive s ops) A key
      ∧ ((∀ op ∈ ops, op.domain = some B → op.generation ≤ bound) →
          floor (Runs.run receive s ops) A key ≤ max (floor (Runs.run receive s (inDomain A ops)) A key) bound)
      ∧ (s.2.recvGen.gen key = 0 → (∀ op ∈ ops, op.isInstall = false) →
          floor (Runs.run receive s ops) A key = floor (Runs.run receive s (inDomain A ops)) A key
            ∧ (Runs.run receive s ops).2.recvGen.gen key = 0) := by
  induction ops using List.reverseRecOn with
  | nil => exact ⟨h, h, le_rfl, fun _ => le_max_left _ _, fun hzero _ => ⟨rfl, hzero⟩⟩
  | append_singleton before op ih =>
    simp only [List.mem_append, List.mem_singleton] at htuple hdomain hne
    obtain ⟨hroom, halone, hge, hle, heq⟩ := ih (fun o ho => htuple o (Or.inl ho)) (fun o ho => hdomain o (Or.inl ho))
      (fun o ho => hne o (Or.inl ho))
    have hop := htuple op (Or.inr rfl)
    have hgen := hne op (Or.inr rfl)
    rw [Runs.run_snoc]
    rcases hdomain op (Or.inr rfl) with hA | hB
    · -- its own operation moves both floors alike
      have hfilter : inDomain A (before ++ [op]) = inDomain A before ++ [op] := by
        simp [inDomain, hA]
      have hfloor := receive_floor hroom (Or.inl rfl) hA hop hgen
      have hfloor' := receive_floor halone (Or.inl rfl) hA hop hgen
      rw [hfilter, Runs.run_snoc, hfloor, hfloor']
      refine ⟨receive_roomy hroom (Or.inl rfl) hA hop hgen, receive_roomy halone (Or.inl rfl) hA hop hgen, ?_, ?_, ?_⟩
      · split_ifs <;> omega
      · intro hbound
        have hle' := hle fun o ho => hbound o (List.mem_append_left _ ho)
        split_ifs <;> omega
      · intro hzero hdeletes
        obtain ⟨hsame, hbare⟩ := heq hzero fun o ho => hdeletes o (List.mem_append_left _ ho)
        refine ⟨by rw [hsame], ?_⟩
        exact ((receive_floor_other hroom (Or.inl rfl) hA hop hgen hAB.symm).2.2 (hdeletes op (by simp)) hbare).2
    · have hfilter : inDomain A (before ++ [op]) = inDomain A before := by
        simp [inDomain, hB, hAB.symm]
      obtain ⟨hlow, hhigh, hkept⟩ := receive_floor_other hroom (Or.inr rfl) hB hop hgen hAB
      rw [hfilter]
      refine ⟨receive_roomy hroom (Or.inr rfl) hB hop hgen, halone, hge.trans hlow, ?_, ?_⟩
      · intro hbound
        have hle' := hle fun o ho => hbound o (List.mem_append_left _ ho)
        have hop' := hbound op (by simp) hB
        omega
      · intro hzero hdeletes
        obtain ⟨hsame, hbare⟩ := heq hzero fun o ho => hdeletes o (List.mem_append_left _ ho)
        obtain ⟨hfloor, hbare'⟩ := hkept (hdeletes op (by simp)) hbare
        exact ⟨hfloor.trans hsame, hbare'⟩

/-- **How far two domains interfere.** The bare space is shared, so an operation of one
domain can be refused for a newer generation of the other. It is never admitted for it, it
is not refused for an older one, and as long as nothing was installed the two domains do
not meet at all. -/
theorem domains_interfere_by_refusal {s : Caps × Family K} {A B : UInt32} {key : K} (h : Roomy s A B key) (hAB : A ≠ B)
    {before : List (Op K)} {op : Op K} (htuple : ∀ o ∈ before ++ [op], o.tuple = key)
    (hdomain : ∀ o ∈ before, o.domain = some A ∨ o.domain = some B) (hA : op.domain = some A)
    (hne : ∀ o ∈ before ++ [op], o.generation ≠ 0) :
    (op.admitted (Runs.run receive s before) = true → op.admitted (Runs.run receive s (inDomain A before)) = true)
      ∧ ((∀ o ∈ before, o.domain = some B → o.generation < op.generation) →
          op.admitted (Runs.run receive s before) = op.admitted (Runs.run receive s (inDomain A before)))
      ∧ (s.2.recvGen.gen key = 0 → (∀ o ∈ before, o.isInstall = false) →
          op.admitted (Runs.run receive s before) = op.admitted (Runs.run receive s (inDomain A before))) := by
  simp only [List.mem_append, List.mem_singleton] at htuple hne
  have hop := htuple op (Or.inr rfl)
  have hgen := hne op (Or.inr rfl)
  obtain ⟨-, -, hge, hle, heq⟩ := run_inDomain h hAB (fun o ho => htuple o (Or.inl ho)) hdomain
    (fun o ho => hne o (Or.inl ho)) op.generation
  refine ⟨?_, ?_, ?_⟩
  · rw [admitted_iff hA hop hgen, admitted_iff hA hop hgen]
    exact hge.trans
  · intro hbound
    have hle' := hle fun o ho hB => (hbound o ho hB).le
    rw [Bool.eq_iff_iff, admitted_iff hA hop hgen, admitted_iff hA hop hgen]
    omega
  · intro hzero hdeletes
    rw [Bool.eq_iff_iff, admitted_iff hA hop hgen, admitted_iff hA hop hgen, (heq hzero hdeletes).1]

/-- The other domain's install at generation 2 lets this domain's at 3 pass. -/
theorem domains_interfere_by_refusal_newer :
    (Op.install 5 ⟨7, 3, false, 0, true, false⟩ : Op ℕ).admitted
        (Runs.run receive ((⟨0, 0, 0⟩ : Caps), (Family.empty : Family ℕ)) [.install 5 ⟨8, 2, false, 0, true, false⟩])
      = (Op.install 5 ⟨7, 3, false, 0, true, false⟩ : Op ℕ).admitted
        (Runs.run receive ((⟨0, 0, 0⟩ : Caps), (Family.empty : Family ℕ))
          (inDomain 7 [.install 5 ⟨8, 2, false, 0, true, false⟩])) := by
  have hroomy : Roomy ((⟨0, 0, 0⟩ : Caps), (Family.empty : Family ℕ)) 7 8 5 :=
    ⟨rfl, Or.inr (by decide), by decide⟩
  refine (domains_interfere_by_refusal hroomy (by decide) ?_ ?_ ?_ ?_).2.1 ?_
  all_goals simp [Op.tuple, Op.domain, Op.generation, scopedLogicalDomain]

/-- The other domain's install at generation 2 refuses this domain's at 1, which the domain
alone would have admitted. -/
theorem domains_interfere :
    (Op.install 5 ⟨7, 1, false, 0, true, false⟩ : Op ℕ).admitted
        (Runs.run receive ((⟨0, 0, 0⟩ : Caps), (Family.empty : Family ℕ)) [.install 5 ⟨8, 2, false, 0, true, false⟩])
        = false
      ∧ (Op.install 5 ⟨7, 1, false, 0, true, false⟩ : Op ℕ).admitted
        (Runs.run receive ((⟨0, 0, 0⟩ : Caps), (Family.empty : Family ℕ))
          (inDomain 7 [.install 5 ⟨8, 2, false, 0, true, false⟩])) = true := by
  decide

end Xpf.GenGuard
