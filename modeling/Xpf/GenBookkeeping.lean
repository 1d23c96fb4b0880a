/-
The bookkeeping of the generation guards: two maps, two tombstone orders and an index, kept
together by helpers that evict and grow in between.

What a helper can do to a space is said once (`Space.Recorded`): nothing, evict the oldest
tombstone, store the key, or both. The invariant and what a step keeps are read off those
four cases.
-/
import Mathlib.Order.Basic
import Xpf.GenGuard

set_option autoImplicit false

namespace Xpf.GenGuard

variable {K : Type} [DecidableEq K]

/-! ## What recording a generation does to a space -/

/-- The ends of recording a generation for a key in a space. -/
inductive Space.Recorded (s : Space K) (key : K) (gen : ℕ) (markTomb : Bool) : Space K → Option K → Bool → Prop
  | skipped (absent : key ∉ s.gens) : Recorded s key gen markTomb s none false
  | stored : Recorded s key gen markTomb (Space.remark { s with gens := s.gens.insert key gen } key markTomb) none true
  | evicted (absent : key ∉ s.gens) (front : K) (rest : List K) (oldest : s.tombs.order = front :: rest) :
      Recorded s key gen markTomb { gens := s.gens.erase front, tombs := s.tombs.dropOldest } (some front) false
  | replaced (absent : key ∉ s.gens) (front : K) (rest : List K) (oldest : s.tombs.order = front :: rest) :
      Recorded s key gen markTomb
        (Space.remark { gens := (s.gens.erase front).insert key gen, tombs := s.tombs.dropOldest } key markTomb)
        (some front) true

/-- The space of an attempt once the mark of a stored key is set. -/
def Put.marked (put : Put (Space K)) (key : K) (markTomb : Bool) : Space K :=
  if put.stored then put.space.remark key markTomb else put.space

theorem putGenBounded_cases (m : GoMap K ℕ) (key : K) (gen cap : ℕ) :
    putGenBounded m key gen cap = some (m.insert key gen) ∨ (key ∉ m ∧ putGenBounded m key gen cap = none) := by
  unfold putGenBounded
  by_cases hmem : key ∈ m
  · rw [if_pos hmem]
    exact Or.inl rfl
  · rw [if_neg hmem]
    split_ifs
    · exact Or.inr ⟨hmem, rfl⟩
    · exact Or.inl rfl

theorem putEvicting_recorded (s : Space K) (key : K) (gen cap : ℕ) (markTomb : Bool) :
    s.Recorded key gen markTomb ((putEvicting s key gen cap).1.marked key markTomb) (putEvicting s key gen cap).2
        (putEvicting s key gen cap).1.stored
      ∧ (putEvicting s key gen cap).1.evicted = (putEvicting s key gen cap).2.isSome := by
  unfold putEvicting Space.evictOldest Put.marked
  by_cases hfull : key ∉ s.gens ∧ cap ≤ s.gens.keys.length
  · rw [if_pos hfull]
    rcases horder : s.tombs.order with - | ⟨front, rest⟩
    · rcases putGenBounded_cases s.gens key gen cap with h | ⟨habsent, h⟩
      · simp only [h]
        exact ⟨.stored, trivial⟩
      · simp only [h]
        exact ⟨.skipped habsent, trivial⟩
    · rcases putGenBounded_cases (s.gens.erase front) key gen cap with h | ⟨-, h⟩
      · simp only [h]
        exact ⟨.replaced hfull.1 front rest horder, trivial⟩
      · simp only [h]
        exact ⟨.evicted hfull.1 front rest horder, trivial⟩
  · rw [if_neg hfull]
    rcases putGenBounded_cases s.gens key gen cap with h | ⟨habsent, h⟩
    · simp only [h]
      exact ⟨.stored, trivial⟩
    · simp only [h]
      exact ⟨.skipped habsent, trivial⟩

/-- An attempt that changes nothing when it neither stores nor evicts leaves the state of
some attempt at some cap, however often it is made. -/
theorem putGrowing_eq {σ : Type} {put : σ → ℕ → Put σ} {s : σ} (c : Caps)
    (idle : ∀ cap, (put s cap).stored = false → (put s cap).evicted = false → (put s cap).space = s) :
    ∃ c' cap, putGrowing put c s = (c', (put s cap).space, (put s cap).stored) := by
  unfold putGrowing
  by_cases hidle : (put s c.recvCap).stored = false ∧ (put s c.recvCap).evicted = false
  · rw [if_pos (by simp [hidle])]
    rw [idle _ hidle.1 hidle.2]
    by_cases hgrew : c.growRecvCap.2 = true
    · exact ⟨_, _, if_pos hgrew⟩
    · refine ⟨c.growRecvCap.1, c.recvCap, ?_⟩
      rw [idle _ hidle.1 hidle.2]
      exact if_neg hgrew
  · rw [if_neg (by simpa [not_and_or] using hidle)]
    exact ⟨c, _, rfl⟩

/-- An attempt that neither stores nor evicts leaves the space as it was. -/
theorem putEvicting_idle {s : Space K} {key : K} {gen cap : ℕ} (hstored : (putEvicting s key gen cap).1.stored = false)
    (hevicted : (putEvicting s key gen cap).1.evicted = false) :
    (putEvicting s key gen cap).1.space = s ∧ (putEvicting s key gen cap).2 = none := by
  obtain ⟨hrec, hfront⟩ := putEvicting_recorded s key gen cap false
  have hmarked : (putEvicting s key gen cap).1.marked key false = (putEvicting s key gen cap).1.space := by
    simp [Put.marked, hstored]
  rw [hmarked, hstored] at hrec
  rw [hevicted] at hfront
  generalize (putEvicting s key gen cap).1.space = space at hrec ⊢
  generalize (putEvicting s key gen cap).2 = front at hrec hfront ⊢
  cases hrec with
  | skipped => exact ⟨rfl, rfl⟩
  | evicted => simp at hfront

theorem recordGen_recorded (c : Caps) (s : Space K) (key : K) (gen : ℕ) (markTomb : Bool) :
    ∃ front stored, s.Recorded key gen markTomb (recordGen c s key gen markTomb).2 front stored := by
  have idle : ∀ cap, (putGenEvictingTombstones key gen s cap).stored = false →
      (putGenEvictingTombstones key gen s cap).evicted = false →
        (putGenEvictingTombstones key gen s cap).space = s :=
    fun cap hstored hevicted => (putEvicting_idle hstored hevicted).1
  obtain ⟨c', cap, heq⟩ := putGrowing_eq c idle
  refine ⟨(putEvicting s key gen cap).2, (putEvicting s key gen cap).1.stored, ?_⟩
  unfold recordGen
  rw [heq]
  exact (putEvicting_recorded s key gen cap markTomb).1

/-- The index once a key has been evicted and another stored. -/
def indexAfter (ix : ScopedTupleIndex K) (front : Option (ScopedDeleteKey K)) (skey : ScopedDeleteKey K)
    (stored : Bool) : ScopedTupleIndex K :=
  let ix := match front with
    | some front => ScopedTupleIndex.remove ix front.key front
    | none => ix
  if stored then ScopedTupleIndex.add ix skey.key skey else ix

theorem recordScopedGen_recorded (c : Caps) (s : Scoped K) (skey : ScopedDeleteKey K) (gen : ℕ) (markTomb : Bool) :
    ∃ front stored, s.space.Recorded skey gen markTomb (recordScopedGen c s skey gen markTomb).2.space front stored
      ∧ (recordScopedGen c s skey gen markTomb).2.byTuple = indexAfter s.byTuple front skey stored := by
  have idle : ∀ cap, (putScopedGenEvictingTombstones skey gen s cap).stored = false →
      (putScopedGenEvictingTombstones skey gen s cap).evicted = false →
        (putScopedGenEvictingTombstones skey gen s cap).space = s := by
    intro cap hstored hevicted
    obtain ⟨hspace, hfront⟩ := putEvicting_idle hstored hevicted
    unfold putScopedGenEvictingTombstones at hstored ⊢
    simp only at hstored ⊢
    rw [hspace, hfront, hstored]
    rfl
  obtain ⟨c', cap, heq⟩ := putGrowing_eq c idle
  refine ⟨(putEvicting s.space skey gen cap).2, (putEvicting s.space skey gen cap).1.stored, ?_⟩
  have hrec := (putEvicting_recorded s.space skey gen cap markTomb).1
  unfold Put.marked at hrec
  unfold recordScopedGen
  rw [heq]
  simp only [putScopedGenEvictingTombstones, indexAfter]
  by_cases hstored : (putEvicting s.space skey gen cap).1.stored = true
  · simp only [if_pos hstored] at hrec ⊢
    exact ⟨hrec, by trivial⟩
  · simp only [if_neg hstored] at hrec ⊢
    exact ⟨hrec, by trivial⟩

/-! ## The index -/

namespace ScopedTupleIndex

theorem mem_keys_iff {ix : ScopedTupleIndex K} {tuple : K} {skey : ScopedDeleteKey K} :
    skey ∈ keys ix tuple ↔ ∃ set, ix.lookup tuple = some set ∧ skey ∈ set := by
  unfold keys
  cases ix.lookup tuple with
  | none => simp
  | some set => simp [AList.mem_keys]

theorem mem_keys_add (ix : ScopedTupleIndex K) (tuple t : K) (skey k : ScopedDeleteKey K) :
    k ∈ keys (add ix tuple skey) t ↔ (t = tuple ∧ k = skey) ∨ k ∈ keys ix t := by
  unfold add keys
  by_cases ht : t = tuple
  · subst ht
    simp only [AList.lookup_insert, Option.getD_some, ← AList.mem_keys, AList.mem_insert, true_and]
  · simp [AList.lookup_insert_ne ht, ht]

theorem mem_keys_remove (ix : ScopedTupleIndex K) (tuple t : K) (skey k : ScopedDeleteKey K) :
    k ∈ keys (remove ix tuple skey) t ↔ k ∈ keys ix t ∧ ¬ (t = tuple ∧ k = skey) := by
  simp only [mem_keys_iff]
  unfold remove
  cases hset : ix.lookup tuple with
  | none =>
    by_cases ht : t = tuple
    · subst ht
      simp [hset]
    · simp [ht]
  | some set =>
    have hmem : ∀ k, k ∈ set.erase skey ↔ k ≠ skey ∧ k ∈ set := fun k => AList.mem_erase
    by_cases ht : t = tuple
    · subst ht
      simp only [hset, Option.some_inj, exists_eq_left', true_and]
      by_cases hlast : (set.erase skey).keys = []
      · have hnone : k ∉ set.erase skey := by simp [AList.mem_keys, hlast]
        rw [hmem] at hnone
        simp only [if_pos hlast, AList.lookup_erase]
        constructor
        · rintro ⟨_, h, _⟩
          cases h
        · exact fun ⟨hk, hne⟩ => absurd ⟨hne, hk⟩ hnone
      · simp only [if_neg hlast, AList.lookup_insert, Option.some_inj, exists_eq_left', hmem]
        tauto
    · simp only [ht, false_and, not_false_eq_true, and_true]
      by_cases hlast : (set.erase skey).keys = []
      · simp only [if_pos hlast, AList.lookup_erase_ne ht]
      · simp only [if_neg hlast, AList.lookup_insert_ne ht]

/-- No tuple is kept with an empty set. -/
def Pruned (ix : ScopedTupleIndex K) : Prop := ∀ tuple set, ix.lookup tuple = some set → set.keys ≠ []

theorem Pruned.add {ix : ScopedTupleIndex K} (h : Pruned ix) (tuple : K) (skey : ScopedDeleteKey K) :
    Pruned (add ix tuple skey) := by
  intro t set hset
  unfold ScopedTupleIndex.add at hset
  by_cases ht : t = tuple
  · subst ht
    rw [AList.lookup_insert] at hset
    rw [← Option.some_inj.mp hset]
    simp
  · rw [AList.lookup_insert_ne ht] at hset
    exact h t set hset

theorem Pruned.remove {ix : ScopedTupleIndex K} (h : Pruned ix) (tuple : K) (skey : ScopedDeleteKey K) :
    Pruned (remove ix tuple skey) := by
  unfold ScopedTupleIndex.remove
  cases hset : ix.lookup tuple with
  | none => exact h
  | some set =>
    intro t set' hset'
    by_cases hlast : (set.erase skey).keys = []
    · simp only [hlast, if_true] at hset'
      by_cases ht : t = tuple
      · subst ht
        simp at hset'
      · rw [AList.lookup_erase_ne ht] at hset'
        exact h t set' hset'
    · simp only [hlast, if_false] at hset'
      by_cases ht : t = tuple
      · subst ht
        rw [AList.lookup_insert] at hset'
        rw [← Option.some_inj.mp hset']
        exact hlast
      · rw [AList.lookup_insert_ne ht] at hset'
        exact h t set' hset'

end ScopedTupleIndex

/-! ## The invariant -/

/-- Every tombstone is a key of the generation map. -/
def Space.Tombstoned (s : Space K) : Prop := ∀ key ∈ s.tombs.order, key ∈ s.gens

/-- The scoped space: its tombstones are keys of its map, and the index is the inverse of
the map, tuple by tuple, with no tuple left over. -/
structure Scoped.Consistent (s : Scoped K) : Prop where
  tombstoned : s.space.Tombstoned
  inverse : ∀ tuple skey, skey ∈ ScopedTupleIndex.keys s.byTuple tuple ↔ skey ∈ s.space.gens ∧ skey.key = tuple
  pruned : ScopedTupleIndex.Pruned s.byTuple

structure Family.Consistent (f : Family K) : Prop where
  bare : f.recvGen.Tombstoned
  scopedSpace : f.recvGenScoped.Consistent

theorem mem_mark {o : GenTombstoneOrder K} {key k : K} : k ∈ (o.mark key).order ↔ k = key ∨ k ∈ o.order := by
  unfold GenTombstoneOrder.mark
  by_cases hk : k = key
  · simp [hk]
  · simp [hk, List.mem_erase_of_ne hk]

theorem mem_forget {o : GenTombstoneOrder K} {key k : K} : k ∈ (o.forget key).order ↔ k ≠ key ∧ k ∈ o.order :=
  o.nodup.mem_erase_iff

omit [DecidableEq K] in
theorem mem_dropOldest {o : GenTombstoneOrder K} {front : K} {rest : List K} (h : o.order = front :: rest) {k : K} :
    k ∈ o.dropOldest.order ↔ k ≠ front ∧ k ∈ o.order := by
  have hnodup := o.nodup
  rw [h] at hnodup
  have htail : o.dropOldest.order = rest := by simp [GenTombstoneOrder.dropOldest, h]
  rw [htail, h, List.mem_cons]
  constructor
  · exact fun hk => ⟨fun heq => (List.nodup_cons.mp hnodup).1 (heq ▸ hk), Or.inr hk⟩
  · exact fun ⟨hne, hk⟩ => hk.resolve_left hne

theorem tombstoned_remark {s : Space K} {key : K} (h : ∀ k ∈ s.tombs.order, k ∈ s.gens) (hkey : key ∈ s.gens)
    (markTomb : Bool) : (s.remark key markTomb).Tombstoned := by
  intro k hk
  unfold Space.remark at hk ⊢
  cases markTomb with
  | true =>
    rcases mem_mark.mp hk with rfl | hk
    · exact hkey
    · exact h k hk
  | false => exact h k (mem_forget.mp hk).2

theorem Space.Recorded.tombstoned {s s' : Space K} {key : K} {gen : ℕ} {markTomb stored : Bool} {front : Option K}
    (hrec : s.Recorded key gen markTomb s' front stored) (h : s.Tombstoned) : s'.Tombstoned := by
  cases hrec with
  | skipped => exact h
  | stored =>
    refine tombstoned_remark (fun k hk => ?_) ?_ markTomb
    · exact (AList.mem_insert _).mpr (Or.inr (h k hk))
    · exact (AList.mem_insert _).mpr (Or.inl rfl)
  | evicted absent front rest oldest =>
    intro k hk
    obtain ⟨hne, hk⟩ := (mem_dropOldest oldest).mp hk
    exact AList.mem_erase.mpr ⟨hne, h k hk⟩
  | replaced absent front rest oldest =>
    refine tombstoned_remark (fun k hk => ?_) ?_ markTomb
    · obtain ⟨hne, hk⟩ := (mem_dropOldest oldest).mp hk
      exact (AList.mem_insert _).mpr (Or.inr (AList.mem_erase.mpr ⟨hne, h k hk⟩))
    · exact (AList.mem_insert _).mpr (Or.inl rfl)

/-- The keys a space has once a generation has been recorded. -/
theorem Space.Recorded.mem_gens {s s' : Space K} {key : K} {gen : ℕ} {markTomb stored : Bool} {front : Option K}
    (hrec : s.Recorded key gen markTomb s' front stored) (k : K) :
    k ∈ s'.gens ↔ (stored = true ∧ k = key) ∨ (k ∈ s.gens ∧ front ≠ some k) := by
  cases hrec with
  | skipped => simp
  | stored => simp [Space.remark, AList.mem_insert]
  | evicted absent front rest oldest =>
    simp only [AList.mem_erase, Bool.false_eq_true, false_and, false_or, ne_eq, Option.some_inj]
    tauto
  | replaced absent front rest oldest =>
    simp only [Space.remark, AList.mem_insert, AList.mem_erase, true_and, ne_eq, Option.some_inj]
    tauto

theorem mem_keys_indexAfter (ix : ScopedTupleIndex K) (front : Option (ScopedDeleteKey K))
    (skey : ScopedDeleteKey K) (stored : Bool) (tuple : K) (k : ScopedDeleteKey K) :
    k ∈ ScopedTupleIndex.keys (indexAfter ix front skey stored) tuple ↔
      (stored = true ∧ tuple = skey.key ∧ k = skey)
        ∨ (k ∈ ScopedTupleIndex.keys ix tuple ∧ ¬ (tuple = k.key ∧ front = some k)) := by
  have hremoved : k ∈ ScopedTupleIndex.keys (match front with
      | some front => ScopedTupleIndex.remove ix front.key front
      | none => ix) tuple ↔ k ∈ ScopedTupleIndex.keys ix tuple ∧ ¬ (tuple = k.key ∧ front = some k) := by
    cases front with
    | none => simp
    | some front =>
      simp only [ScopedTupleIndex.mem_keys_remove, Option.some_inj]
      constructor
      · rintro ⟨hk, hne⟩
        refine ⟨hk, fun ⟨ht, heq⟩ => hne ?_⟩
        rw [heq]
        exact ⟨ht, rfl⟩
      · rintro ⟨hk, hne⟩
        refine ⟨hk, fun ⟨ht, heq⟩ => hne ?_⟩
        rw [heq]
        exact ⟨ht, rfl⟩
  unfold indexAfter
  cases stored with
  | true => simp only [if_true, ScopedTupleIndex.mem_keys_add, hremoved, true_and]
  | false => simp only [Bool.false_eq_true, if_false, hremoved, false_and, false_or]

theorem pruned_indexAfter {ix : ScopedTupleIndex K} (h : ScopedTupleIndex.Pruned ix)
    (front : Option (ScopedDeleteKey K)) (skey : ScopedDeleteKey K) (stored : Bool) :
    ScopedTupleIndex.Pruned (indexAfter ix front skey stored) := by
  have hremoved : ScopedTupleIndex.Pruned (match front with
      | some front => ScopedTupleIndex.remove ix front.key front
      | none => ix) := by
    cases front with
    | none => exact h
    | some front => exact h.remove _ _
  cases stored with
  | true => exact hremoved.add _ _
  | false => exact hremoved

theorem consistent_recordScopedGen {s : Scoped K} (h : s.Consistent) (c : Caps) (skey : ScopedDeleteKey K)
    (gen : ℕ) (markTomb : Bool) : (recordScopedGen c s skey gen markTomb).2.Consistent := by
  obtain ⟨front, stored, hrec, hindex⟩ := recordScopedGen_recorded c s skey gen markTomb
  refine ⟨hrec.tombstoned h.tombstoned, fun tuple k => ?_, ?_⟩
  · rw [hindex, hrec.mem_gens, mem_keys_indexAfter, h.inverse]
    constructor
    · rintro (⟨hstored, rfl, rfl⟩ | ⟨⟨hk, rfl⟩, hne⟩)
      · exact ⟨Or.inl ⟨hstored, rfl⟩, rfl⟩
      · exact ⟨Or.inr ⟨hk, fun heq => hne ⟨rfl, heq⟩⟩, rfl⟩
    · rintro ⟨⟨hstored, rfl⟩ | ⟨hk, hne⟩, rfl⟩
      · exact Or.inl ⟨hstored, rfl, rfl⟩
      · exact Or.inr ⟨⟨hk, rfl⟩, fun heq => hne heq.2⟩
  · rw [hindex]
    exact pruned_indexAfter h.pruned front skey stored

theorem tombstoned_recordGen {s : Space K} (h : s.Tombstoned) (c : Caps) (key : K) (gen : ℕ) (markTomb : Bool) :
    (recordGen c s key gen markTomb).2.Tombstoned := by
  obtain ⟨front, stored, hrec⟩ := recordGen_recorded c s key gen markTomb
  exact hrec.tombstoned h

/-! ## What a step keeps -/

/-- What a step leaves of a space: a live key goes only where `gone` says so, and no key
that stays has a lower generation. -/
structure Space.Keeps (s s' : Space K) (gone : K → Prop) : Prop where
  live : ∀ key ∈ s.gens, key ∉ s.tombs.order → key ∉ s'.gens → gone key
  mono : ∀ key g g', s.gens.lookup key = some g → s'.gens.lookup key = some g' → g ≤ g'

/-- What a step leaves of both spaces of a family. -/
structure Family.Keeps (f f' : Family K) (gone : K → Prop) : Prop where
  bare : f.recvGen.Keeps f'.recvGen gone
  scopedSpace : f.recvGenScoped.space.Keeps f'.recvGenScoped.space fun skey => gone skey.key

theorem Space.Keeps.refl (s : Space K) (gone : K → Prop) : s.Keeps s gone where
  live := fun _ hk _ hgone => absurd hk hgone
  mono := fun _ g g' hg hg' => by
    rw [hg] at hg'
    exact (Option.some_inj.mp hg').le

theorem Space.Recorded.lookup {s s' : Space K} {key : K} {gen : ℕ} {markTomb stored : Bool} {front : Option K}
    (hrec : s.Recorded key gen markTomb s' front stored) (k : K) :
    s'.gens.lookup k = if stored = true ∧ k = key then some gen
      else if front = some k then none else s.gens.lookup k := by
  cases hrec with
  | skipped => simp
  | stored =>
    by_cases hk : k = key
    · subst hk
      simp [Space.remark]
    · simp [Space.remark, hk]
  | evicted absent front rest oldest =>
    by_cases hk : k = front
    · subst hk
      simp
    · simp [hk, Ne.symm hk]
  | replaced absent front rest oldest =>
    by_cases hk : k = key
    · subst hk
      simp [Space.remark]
    · by_cases hf : k = front
      · subst hf
        simp [Space.remark, hk]
      · simp [Space.remark, hk, hf, Ne.symm hf]

theorem Space.Recorded.front_mem {s s' : Space K} {key k : K} {gen : ℕ} {markTomb stored : Bool}
    (hrec : s.Recorded key gen markTomb s' (some k) stored) : k ∈ s.tombs.order := by
  cases hrec with
  | evicted absent front rest oldest => simp [oldest]
  | replaced absent front rest oldest => simp [oldest]

theorem Space.Recorded.keeps {s s' : Space K} {key : K} {gen : ℕ} {markTomb stored : Bool} {front : Option K}
    (hrec : s.Recorded key gen markTomb s' front stored) (hgen : s.gen key ≤ gen) (gone : K → Prop) :
    s.Keeps s' gone where
  live := by
    intro k hk hlive hout
    rw [hrec.mem_gens] at hout
    have hfront : front = some k := by tauto
    subst hfront
    exact absurd hrec.front_mem hlive
  mono := by
    intro k g g' hg hg'
    rw [hrec.lookup] at hg'
    by_cases hself : stored = true ∧ k = key
    · rw [if_pos hself] at hg'
      obtain ⟨-, rfl⟩ := hself
      rw [Space.gen, hg] at hgen
      exact le_trans hgen (Option.some_inj.mp hg').le
    · rw [if_neg hself, hg] at hg'
      split_ifs at hg'
      exact (Option.some_inj.mp hg').le

theorem recordGen_keeps (c : Caps) {s : Space K} {key : K} {gen : ℕ} (hgen : s.gen key ≤ gen) (markTomb : Bool)
    (gone : K → Prop) : s.Keeps (recordGen c s key gen markTomb).2 gone := by
  obtain ⟨front, stored, hrec⟩ := recordGen_recorded c s key gen markTomb
  exact hrec.keeps hgen gone

theorem recordScopedGen_keeps (c : Caps) {s : Scoped K} {skey : ScopedDeleteKey K} {gen : ℕ}
    (hgen : s.space.gen skey ≤ gen) (markTomb : Bool) (gone : ScopedDeleteKey K → Prop) :
    s.space.Keeps (recordScopedGen c s skey gen markTomb).2.space gone := by
  obtain ⟨front, stored, hrec, -⟩ := recordScopedGen_recorded c s skey gen markTomb
  exact hrec.keeps hgen gone

/-- A bare entry dropped with its mark. -/
theorem erase_keeps (s : Space K) (key : K) :
    s.Keeps { gens := s.gens.erase key, tombs := s.tombs.forget key } fun k => k = key where
  live := by
    intro k hk _ hout
    rw [AList.mem_erase] at hout
    tauto
  mono := by
    intro k g g' hg hg'
    by_cases hk : k = key
    · subst hk
      simp at hg'
    · rw [AList.lookup_erase_ne hk, hg] at hg'
      exact (Option.some_inj.mp hg').le

theorem erase_tombstoned {s : Space K} (h : s.Tombstoned) (key : K) :
    Space.Tombstoned { gens := s.gens.erase key, tombs := s.tombs.forget key } := by
  intro k hk
  obtain ⟨hne, hk⟩ := mem_forget.mp hk
  exact AList.mem_erase.mpr ⟨hne, h k hk⟩

/-! ## The scoped entries of a tuple -/

/-- One scoped entry after another is tombstoned: the keys stay, no generation goes down. -/
theorem tombstoneTuple_spec {deleteGen : ℕ} (hdel : deleteGen ≠ 0) (keys : List (ScopedDeleteKey K)) (c : Caps)
    (s : Scoped K) (h : s.Consistent) (hkeys : ∀ k ∈ keys, k ∈ s.space.gens) :
    (tombstoneTuple c s keys deleteGen).2.Consistent
      ∧ (∀ k, k ∈ (tombstoneTuple c s keys deleteGen).2.space.gens ↔ k ∈ s.space.gens)
      ∧ ∀ k g g', s.space.gens.lookup k = some g →
          (tombstoneTuple c s keys deleteGen).2.space.gens.lookup k = some g' → g ≤ g' := by
  induction keys generalizing c s with
  | nil => exact ⟨h, fun _ => Iff.rfl, (Space.Keeps.refl s.space fun _ => False).mono⟩
  | cons skey keys ih =>
    have hin := hkeys skey List.mem_cons_self
    have hrest : ∀ k ∈ keys, k ∈ s.space.gens := fun k hk => hkeys k (List.mem_cons_of_mem skey hk)
    by_cases hnewer : deleteGen < s.space.gen skey
    · have hstep : tombstoneTuple c s (skey :: keys) deleteGen = tombstoneTuple c s keys deleteGen := by
        simp [tombstoneTuple, hnewer]
      rw [hstep]
      exact ih c s h hrest
    · have hstep : tombstoneTuple c s (skey :: keys) deleteGen
          = tombstoneTuple (recordScopedGen c s skey deleteGen true).1 (recordScopedGen c s skey deleteGen true).2
              keys deleteGen := by
        simp [tombstoneTuple, hnewer, tombstoneScopedCore, hdel]
      rw [hstep]
      have hcons := consistent_recordScopedGen h c skey deleteGen true
      have hkeep := recordScopedGen_keeps c (not_lt.mp hnewer) true fun _ => False
      -- the key is there already, so nothing is evicted for it
      obtain ⟨front, stored, hrec, -⟩ := recordScopedGen_recorded c s skey deleteGen true
      have hmem : ∀ k, k ∈ (recordScopedGen c s skey deleteGen true).2.space.gens ↔ k ∈ s.space.gens := by
        intro k
        rw [hrec.mem_gens]
        generalize (recordScopedGen c s skey deleteGen true).2.space = s' at hrec
        cases hrec with
        | skipped absent => exact absurd hin absent
        | stored =>
          constructor
          · rintro (⟨-, rfl⟩ | ⟨hk, -⟩)
            · exact hin
            · exact hk
          · exact fun hk => Or.inr ⟨hk, by simp⟩
        | evicted absent => exact absurd hin absent
        | replaced absent => exact absurd hin absent
      obtain ⟨hc, hk, hmono⟩ := ih _ _ hcons fun k hk => (hmem k).mpr (hrest k hk)
      refine ⟨hc, fun k => (hk k).trans (hmem k), fun k g g' hg hg' => ?_⟩
      have hpresent : k ∈ (recordScopedGen c s skey deleteGen true).2.space.gens := by
        rw [hmem, ← AList.lookup_isSome, hg]
        rfl
      obtain ⟨g₁, hg₁⟩ := Option.isSome_iff_exists.mp (AList.lookup_isSome.mpr hpresent)
      exact le_trans (hkeep.mono k g g₁ hg hg₁) (hmono k g₁ g' hg₁ hg')

theorem consistent_evictScoped {s : Scoped K} (h : s.Consistent) {tuple : K} {skey : ScopedDeleteKey K}
    (htuple : skey.key = tuple) : (evictScoped s tuple skey).Consistent where
  tombstoned := erase_tombstoned h.tombstoned skey
  inverse := by
    intro t k
    show k ∈ ScopedTupleIndex.keys (ScopedTupleIndex.remove s.byTuple tuple skey) t ↔ k ∈ s.space.gens.erase skey ∧ _
    rw [ScopedTupleIndex.mem_keys_remove, h.inverse, AList.mem_erase]
    constructor
    · rintro ⟨⟨hk, ht⟩, hne⟩
      refine ⟨⟨fun heq => hne ?_, hk⟩, ht⟩
      rw [← ht, heq]
      exact ⟨htuple, rfl⟩
    · rintro ⟨⟨hne, hk⟩, ht⟩
      exact ⟨⟨hk, ht⟩, fun heq => hne heq.2⟩
  pruned := h.pruned.remove tuple skey

/-- The entries of a tuple evicted one after another: they are gone, and nothing else is. -/
theorem evictScoped_fold (tuple : K) (keys : List (ScopedDeleteKey K)) (s : Scoped K) (h : s.Consistent)
    (hkeys : ∀ k ∈ keys, k.key = tuple) :
    (keys.foldl (fun s skey => evictScoped s tuple skey) s).Consistent
      ∧ ∀ k, (keys.foldl (fun s skey => evictScoped s tuple skey) s).space.gens.lookup k
          = if k ∈ keys then none else s.space.gens.lookup k := by
  induction keys generalizing s with
  | nil => exact ⟨h, fun k => by simp⟩
  | cons skey keys ih =>
    obtain ⟨hc, hlookup⟩ := ih (evictScoped s tuple skey)
      (consistent_evictScoped h (hkeys skey List.mem_cons_self))
      fun k hk => hkeys k (List.mem_cons_of_mem skey hk)
    refine ⟨hc, fun k => ?_⟩
    rw [List.foldl_cons, hlookup]
    by_cases hk : k = skey
    · subst hk
      simp [evictScoped, deleteScopedGen]
    · simp [hk, evictScoped, deleteScopedGen]

/-! ## One operation -/

/-- A delete without a generation, of that tuple. -/
def Op.ZeroDeletes : Op K → K → Prop
  | .install _ _, _ => False
  | .delete key deleteGen _ _, k => deleteGen = 0 ∧ k = key
  | .deleteScoped _ key deleteGen _, k => deleteGen = 0 ∧ k = key

theorem le_of_not_refuses {stored deleteGen : ℕ} (hdel : deleteGen ≠ 0)
    (h : ¬ refusesDelete stored deleteGen = true) : stored ≤ deleteGen := by
  simp only [refusesDelete, Bool.and_eq_true, decide_eq_true_eq, not_and, not_lt] at h
  by_cases hstored : stored = 0
  · omega
  · exact h ⟨hstored, hdel⟩

theorem installGenGuardCore_le {s : Space K} {key : K} {incoming record : ℕ}
    (h : installGenGuardCore s key incoming = some record) : s.gen key ≤ record := by
  unfold installGenGuardCore at h
  simp only at h
  split_ifs at h with hstale hzero
  · exact (Option.some_inj.mp h).le
  · have := Option.some_inj.mp h
    omega

theorem recordInstalledGenCore_keeps (c : Caps) {s : Space K} (h : s.Tombstoned) {key : K} {gen : ℕ}
    (hgen : s.gen key ≤ gen) (gone : K → Prop) :
    (recordInstalledGenCore c s key gen).2.Tombstoned ∧ s.Keeps (recordInstalledGenCore c s key gen).2 gone := by
  unfold recordInstalledGenCore
  split_ifs
  · exact ⟨h, .refl _ _⟩
  · exact ⟨tombstoned_recordGen h c key gen false, recordGen_keeps c hgen false gone⟩

theorem recordInstalledGenScopedCore_keeps (c : Caps) {s : Scoped K} (h : s.Consistent) {skey : ScopedDeleteKey K}
    {gen : ℕ} (hgen : s.space.gen skey ≤ gen) (gone : ScopedDeleteKey K → Prop) :
    (recordInstalledGenScopedCore c s skey gen).2.Consistent
      ∧ s.space.Keeps (recordInstalledGenScopedCore c s skey gen).2.space gone := by
  unfold recordInstalledGenScopedCore
  split_ifs
  · exact ⟨h, .refl _ _⟩
  · exact ⟨consistent_recordScopedGen h c skey gen false, recordScopedGen_keeps c hgen false gone⟩

theorem installClusterSynced_keeps (c : Caps) {f : Family K} (h : f.Consistent) (key : K) (i : Install)
    (gone : K → Prop) :
    (installClusterSynced c f key i).2.1.Consistent ∧ f.Keeps (installClusterSynced c f key i).2.1 gone := by
  have hsame : f.Keeps f gone := ⟨.refl _ _, .refl _ _⟩
  unfold installClusterSynced
  simp only
  split
  case h_2 => exact ⟨h, hsame⟩
  case h_1 record scopedRecord hrecord hscoped =>
    split_ifs
    · exact ⟨h, hsame⟩
    · exact ⟨h, hsame⟩
    · exact ⟨⟨h.bare, h.scopedSpace⟩, ⟨hsame.bare, hsame.scopedSpace⟩⟩
    · obtain ⟨hb, hbk⟩ := recordInstalledGenCore_keeps ((fun c : Caps => c.growRecvCap.1)^[i.memoGrowths] c) h.bare
        (installGenGuardCore_le hrecord) gone
      obtain ⟨hs, hsk⟩ := recordInstalledGenScopedCore_keeps
        (recordInstalledGenCore ((fun c : Caps => c.growRecvCap.1)^[i.memoGrowths] c) f.recvGen key record).1
        h.scopedSpace (installGenGuardCore_le hscoped) fun skey => gone skey.key
      exact ⟨⟨hb, hs⟩, ⟨hbk, hsk⟩⟩

theorem deleteGenGuardCore_keeps {c c' : Caps} {f f' : Family K} (h : f.Consistent)
    {it : Iteration (ScopedDeleteKey K)} {key : K} {deleteGen : ℕ}
    (hsome : deleteGenGuardCore c f it key deleteGen = some (c', f')) :
    f'.Consistent ∧ f.Keeps f' fun k => deleteGen = 0 ∧ k = key := by
  have hkeys : ∀ k ∈ it.order (ScopedTupleIndex.keys f.recvGenScoped.byTuple key),
      k ∈ f.recvGenScoped.space.gens ∧ k.key = key := by
    intro k hk
    rw [(it.perm _).mem_iff] at hk
    exact (h.scopedSpace.inverse key k).mp hk
  unfold deleteGenGuardCore at hsome
  simp only at hsome
  split_ifs at hsome with hbare htomb hzero
  · have hle := le_of_not_refuses hzero hbare
    obtain ⟨hc, hmem, hmono⟩ := tombstoneTuple_spec hzero _ (tombstoneBareCore c f.recvGen key deleteGen).1
      f.recvGenScoped h.scopedSpace fun k hk => (hkeys k hk).1
    obtain ⟨-, rfl⟩ := Prod.mk.inj (Option.some_inj.mp hsome)
    constructor
    · refine ⟨?_, hc⟩
      unfold tombstoneBareCore
      rw [if_neg hzero]
      exact tombstoned_recordGen h.bare c key deleteGen true
    · refine ⟨?_, ⟨fun k hk _ hout => absurd ((hmem k).mpr hk) hout, hmono⟩⟩
      unfold tombstoneBareCore
      rw [if_neg hzero]
      exact recordGen_keeps c hle true _
  · have hdel : deleteGen = 0 := not_not.mp hzero
    obtain ⟨hc, hlookup⟩ := evictScoped_fold key _ f.recvGenScoped h.scopedSpace fun k hk => (hkeys k hk).2
    obtain ⟨-, rfl⟩ := Prod.mk.inj (Option.some_inj.mp hsome)
    refine ⟨⟨erase_tombstoned h.bare key, hc⟩, ⟨?_, ?_⟩⟩
    · have := erase_keeps f.recvGen key
      exact ⟨fun k hk hl ho => ⟨hdel, this.live k hk hl ho⟩, this.mono⟩
    · constructor
      · intro k hk _ hout
        have hnone : (List.foldl (fun s skey => evictScoped s key skey) f.recvGenScoped
            (it.order (ScopedTupleIndex.keys f.recvGenScoped.byTuple key))).space.gens.lookup k = none :=
          AList.lookup_eq_none.mpr hout
        rw [hlookup] at hnone
        split_ifs at hnone with hin
        · exact ⟨hdel, (hkeys k hin).2⟩
        · exact absurd hk (AList.lookup_eq_none.mp hnone)
      · intro k g g' hg hg'
        have := hlookup k
        rw [hg', hg] at this
        split_ifs at this
        exact (Option.some_inj.mp this).ge

theorem deleteGenGuardScopedCore_keeps {c c' : Caps} {f f' : Family K} (h : f.Consistent) {domain : UInt32} {key : K}
    {deleteGen : ℕ} (hsome : deleteGenGuardScopedCore c f ⟨domain, key⟩ key deleteGen = some (c', f')) :
    f'.Consistent ∧ f.Keeps f' fun k => deleteGen = 0 ∧ k = key := by
  unfold deleteGenGuardScopedCore at hsome
  simp only at hsome
  split_ifs at hsome with hscoped hbare hzero hraise
  · have hle := le_of_not_refuses hzero hscoped
    obtain ⟨-, rfl⟩ := Prod.mk.inj (Option.some_inj.mp hsome)
    unfold tombstoneScopedCore tombstoneBareCore
    simp only [if_neg hzero]
    exact ⟨⟨tombstoned_recordGen h.bare _ key deleteGen true, consistent_recordScopedGen h.scopedSpace _ _ _ true⟩,
      ⟨recordGen_keeps _ hraise.2 true _, recordScopedGen_keeps _ hle true _⟩⟩
  · have hle := le_of_not_refuses hzero hscoped
    obtain ⟨-, rfl⟩ := Prod.mk.inj (Option.some_inj.mp hsome)
    unfold tombstoneScopedCore
    simp only [if_neg hzero]
    exact ⟨⟨h.bare, consistent_recordScopedGen h.scopedSpace _ _ _ true⟩,
      ⟨.refl _ _, recordScopedGen_keeps _ hle true _⟩⟩
  · have hdel : deleteGen = 0 := not_not.mp hzero
    obtain ⟨-, rfl⟩ := Prod.mk.inj (Option.some_inj.mp hsome)
    have hb := erase_keeps f.recvGen key
    have hs := erase_keeps f.recvGenScoped.space ⟨domain, key⟩
    refine ⟨⟨erase_tombstoned h.bare key, consistent_evictScoped h.scopedSpace rfl⟩, ⟨?_, ?_⟩⟩
    · exact ⟨fun k hk hl ho => ⟨hdel, hb.live k hk hl ho⟩, hb.mono⟩
    · exact ⟨fun k hk hl ho => ⟨hdel, congrArg ScopedDeleteKey.key (hs.live k hk hl ho)⟩, hs.mono⟩

/-- **One operation** keeps both spaces consistent, takes a live key away only when it is a
delete of its tuple without a generation, and lowers no generation. -/
theorem Op.apply_keeps (c : Caps) {f : Family K} (h : f.Consistent) (op : Op K) :
    (op.apply c f).2.1.Consistent ∧ f.Keeps (op.apply c f).2.1 op.ZeroDeletes := by
  have hsame : ∀ gone, f.Keeps f gone := fun gone => ⟨.refl _ _, .refl _ _⟩
  cases op with
  | install key i => exact installClusterSynced_keeps c h key i _
  | delete key deleteGen writeOk it =>
    simp only [Op.apply, deleteClusterSynced]
    cases hguard : deleteGenGuardCore c f it key deleteGen with
    | none => exact ⟨h, hsame _⟩
    | some r =>
      obtain ⟨hc, hk⟩ := deleteGenGuardCore_keeps h hguard
      cases writeOk with
      | true => exact ⟨⟨hc.bare, hc.scopedSpace⟩, ⟨hk.bare, hk.scopedSpace⟩⟩
      | false => exact ⟨hc, hk⟩
  | deleteScoped domain key deleteGen writeOk =>
    simp only [Op.apply, deleteClusterSyncedScoped]
    cases hguard : deleteGenGuardScopedCore c f ⟨domain, key⟩ key deleteGen with
    | none => exact ⟨h, hsame _⟩
    | some r =>
      obtain ⟨hc, hk⟩ := deleteGenGuardScopedCore_keeps h hguard
      cases writeOk with
      | true => exact ⟨⟨hc.bare, hc.scopedSpace⟩, ⟨hk.bare, hk.scopedSpace⟩⟩
      | false => exact ⟨hc, hk⟩

/-! ## Resets -/

theorem lookup_reclaimLive {s : Space K} {key : K} {g : ℕ} :
    s.reclaimLive.gens.lookup key = some g ↔ key ∈ s.tombs.order ∧ s.gens.lookup key = some g := by
  have hmem := fun (m : GoMap K ℕ) => AList.mem_lookup_iff (a := key) (b := g) (s := m)
  simp only [Option.mem_def] at hmem
  rw [hmem, hmem]
  simp [Space.reclaimLive, and_comm]

theorem mem_reclaimLive {s : Space K} {key : K} :
    key ∈ s.reclaimLive.gens ↔ key ∈ s.tombs.order ∧ key ∈ s.gens := by
  simp only [← AList.lookup_isSome, Option.isSome_iff_exists, lookup_reclaimLive, exists_and_left]

theorem tombstoned_reclaimLive {s : Space K} (h : s.Tombstoned) : s.reclaimLive.Tombstoned :=
  fun k hk => mem_reclaimLive.mpr ⟨hk, h k hk⟩

/-- An index built from a list of keys names exactly these, each under its tuple. -/
theorem mem_keys_rebuilt (keys : List (ScopedDeleteKey K)) (ix : ScopedTupleIndex K) (tuple : K)
    (k : ScopedDeleteKey K) :
    k ∈ ScopedTupleIndex.keys (keys.foldl (fun ix skey => ScopedTupleIndex.add ix skey.key skey) ix) tuple ↔
      (k ∈ keys ∧ k.key = tuple) ∨ k ∈ ScopedTupleIndex.keys ix tuple := by
  induction keys generalizing ix with
  | nil => simp
  | cons skey keys ih =>
    rw [List.foldl_cons, ih, ScopedTupleIndex.mem_keys_add, List.mem_cons]
    constructor
    · rintro (⟨hk, ht⟩ | ⟨rfl, rfl⟩ | hk)
      · exact Or.inl ⟨Or.inr hk, ht⟩
      · exact Or.inl ⟨Or.inl rfl, rfl⟩
      · exact Or.inr hk
    · rintro (⟨rfl | hk, ht⟩ | hk)
      · exact Or.inr (Or.inl ⟨ht.symm, rfl⟩)
      · exact Or.inl ⟨hk, ht⟩
      · exact Or.inr (Or.inr hk)

theorem pruned_rebuilt (keys : List (ScopedDeleteKey K)) {ix : ScopedTupleIndex K} (h : ScopedTupleIndex.Pruned ix) :
    ScopedTupleIndex.Pruned (keys.foldl (fun ix skey => ScopedTupleIndex.add ix skey.key skey) ix) := by
  induction keys generalizing ix with
  | nil => exact h
  | cons skey keys ih => exact ih (h.add _ _)

theorem consistent_reclaimLive {s : Scoped K} (h : s.Consistent) : s.reclaimLive.Consistent where
  tombstoned := tombstoned_reclaimLive h.tombstoned
  inverse := by
    intro tuple skey
    unfold Scoped.reclaimLive
    rw [mem_keys_rebuilt, ← AList.mem_keys]
    simp [ScopedTupleIndex.keys]
  pruned := pruned_rebuilt _ fun tuple set hset => by simp at hset

theorem consistent_empty : (Family.empty : Family K).Consistent where
  bare := fun k hk => by simp [Family.empty, Space.empty, GenTombstoneOrder.reset] at hk
  scopedSpace :=
    { tombstoned := fun k hk => by simp [Family.empty, Scoped.empty, Space.empty, GenTombstoneOrder.reset] at hk
      inverse := fun tuple skey => by
        simp [Family.empty, Scoped.empty, Space.empty, ScopedTupleIndex.keys]
      pruned := fun tuple set hset => by simp [Family.empty, Scoped.empty] at hset }

theorem reset_keeps {f : Family K} (h : f.Consistent) (preserve : Bool) :
    (f.reset preserve).Consistent ∧ f.Keeps (f.reset preserve) fun _ => True := by
  cases preserve with
  | true =>
    refine ⟨⟨tombstoned_reclaimLive h.bare, consistent_reclaimLive h.scopedSpace⟩, ⟨⟨by simp, ?_⟩, ⟨by simp, ?_⟩⟩⟩
    · intro k g g' hg hg'
      have := (lookup_reclaimLive.mp hg').2
      rw [hg] at this
      exact (Option.some_inj.mp this).le
    · intro k g g' hg hg'
      have := (lookup_reclaimLive.mp hg').2
      rw [hg] at this
      exact (Option.some_inj.mp this).le
  | false =>
    have hempty := consistent_empty (K := K)
    refine ⟨⟨hempty.bare, hempty.scopedSpace⟩, ⟨⟨by simp, ?_⟩, ⟨by simp, ?_⟩⟩⟩
    · intro k g g' _ hg'
      simp [Family.reset, Space.empty] at hg'
    · intro k g g' _ hg'
      simp [Family.reset, Scoped.empty, Space.empty] at hg'

/-! ## Whole runs -/

section

variable {K₄ K₆ : Type} [DecidableEq K₄] [DecidableEq K₆]

structure Receiver.Consistent (r : Receiver K₄ K₆) : Prop where
  v4 : r.v4.Consistent
  v6 : r.v6.Consistent

/-- The event may take a live IPv4 key of that tuple away: a reset, or a delete of the
tuple without a generation. -/
def Event.Clears₄ : Event K₄ K₆ → K₄ → Prop
  | .v4 op, key => op.ZeroDeletes key
  | .reset _, _ => True
  | _, _ => False

def Event.Clears₆ : Event K₄ K₆ → K₆ → Prop
  | .v6 op, key => op.ZeroDeletes key
  | .reset _, _ => True
  | _, _ => False

theorem Receiver.step_keeps {r : Receiver K₄ K₆} (h : r.Consistent) (e : Event K₄ K₆) :
    (r.step e).Consistent ∧ r.v4.Keeps (r.step e).v4 e.Clears₄ ∧ r.v6.Keeps (r.step e).v6 e.Clears₆ := by
  have same₄ : ∀ gone, r.v4.Keeps r.v4 gone := fun gone => ⟨.refl _ _, .refl _ _⟩
  have same₆ : ∀ gone, r.v6.Keeps r.v6 gone := fun gone => ⟨.refl _ _, .refl _ _⟩
  cases e with
  | v4 op =>
    obtain ⟨hc, hk⟩ := op.apply_keeps r.caps h.v4
    exact ⟨⟨hc, h.v6⟩, hk, same₆ _⟩
  | v6 op =>
    obtain ⟨hc, hk⟩ := op.apply_keeps r.caps h.v6
    exact ⟨⟨h.v4, hc⟩, same₄ _, hk⟩
  | reset preserve =>
    obtain ⟨hc₄, hk₄⟩ := reset_keeps h.v4 preserve
    obtain ⟨hc₆, hk₆⟩ := reset_keeps h.v6 preserve
    exact ⟨⟨hc₄, hc₆⟩, hk₄, hk₆⟩
  | setGenGuardSessionCap sessions => exact ⟨⟨h.v4, h.v6⟩, same₄ _, same₆ _⟩
  | grow => exact ⟨⟨h.v4, h.v6⟩, same₄ _, same₆ _⟩

/-- **The bookkeeping of the generation guards.** Whatever the peer sends and whatever the
capacity: every tombstone is a key of its map, the tuple index is the inverse of the scoped
map, and no step takes a live key away or lowers a generation, except that a reset and a
delete of its tuple without a generation remove a key. -/
theorem genGuard_bookkeeping (caps : Caps) (events : List (Event K₄ K₆)) :
    (Runs.run Receiver.step (Receiver.fresh caps) events).Consistent
      ∧ ∀ e, (Runs.run Receiver.step (Receiver.fresh caps) events).v4.Keeps
            (Runs.run Receiver.step (Receiver.fresh caps) (events ++ [e])).v4 e.Clears₄
          ∧ (Runs.run Receiver.step (Receiver.fresh caps) events).v6.Keeps
            (Runs.run Receiver.step (Receiver.fresh caps) (events ++ [e])).v6 e.Clears₆ := by
  have hrun : (Runs.run Receiver.step (Receiver.fresh caps) events).Consistent :=
    Runs.run_invariant (P := Receiver.Consistent) ⟨consistent_empty, consistent_empty⟩
      (fun r e h => (Receiver.step_keeps h e).1) events
  refine ⟨hrun, fun e => ?_⟩
  rw [Runs.run_snoc]
  exact (Receiver.step_keeps hrun e).2

end

end Xpf.GenGuard
