/-
What an evicted tombstone buys: `putGenEvictingTombstones` and its callers in
`pkg/cluster/sync_gen_tombstones_9719.go` and `sync_conn_gen.go`.

One attempt evicts one tombstone. That makes room for the new key in a map that is exactly at
its capacity, and not in one that is above it, as a map is once the ceiling has been lowered:
there the tombstone is lost and the key is not stored.
-/
import Xpf.GenBookkeeping

set_option autoImplicit false

namespace Xpf.GenGuard

variable {K : Type} [DecidableEq K]

theorem length_erase {m : GoMap K ℕ} {key : K} (h : key ∈ m) : (m.erase key).keys.length = m.keys.length - 1 := by
  rw [AList.keys_erase, List.length_erase_of_mem (AList.mem_keys.mp h)]

/-- A new key is stored just in case the map is below the capacity. -/
theorem putGenBounded_new {m : GoMap K ℕ} {key : K} (hnew : key ∉ m) (gen cap : ℕ) :
    putGenBounded m key gen cap = if m.keys.length < cap then some (m.insert key gen) else none := by
  rw [putGenBounded, if_neg hnew]
  by_cases hfull : cap ≤ m.keys.length
  · rw [if_pos hfull, if_neg (Nat.not_lt.mpr hfull)]
  · rw [if_neg hfull, if_pos (Nat.lt_of_not_le hfull)]

section

variable {s : Space K} {key : K} {cap : ℕ}

theorem putEvicting_below (hnew : key ∉ s.gens) (hroom : s.gens.keys.length < cap) (gen : ℕ) :
    putEvicting s key gen cap
      = ({ space := { s with gens := s.gens.insert key gen }, stored := true, evicted := false }, none) := by
  have hnotFull : ¬ (key ∉ s.gens ∧ cap ≤ s.gens.keys.length) := fun h => Nat.not_lt.mpr h.2 hroom
  simp only [putEvicting, if_neg hnotFull, putGenBounded_new hnew, if_pos hroom]
  rfl

theorem putEvicting_live (hnew : key ∉ s.gens) (hfull : cap ≤ s.gens.keys.length) (hlive : s.tombs.order = [])
    (gen : ℕ) : putEvicting s key gen cap = ({ space := s, stored := false, evicted := false }, none) := by
  have hevict : s.evictOldest = none := by rw [Space.evictOldest, hlive]
  simp only [putEvicting, if_pos (And.intro hnew hfull), hevict, putGenBounded_new hnew, if_neg (Nat.not_lt.mpr hfull)]
  rfl

/-- A full map with a tombstone loses it; the key takes its place where the map was at its
capacity. -/
theorem putEvicting_full (hnew : key ∉ s.gens) (hfull : cap ≤ s.gens.keys.length) {front : K} {rest : List K}
    (hfront : s.tombs.order = front :: rest) (hin : front ∈ s.gens) (gen : ℕ) :
    putEvicting s key gen cap
      = if s.gens.keys.length ≤ cap then
          ({ space := { gens := (s.gens.erase front).insert key gen, tombs := s.tombs.dropOldest }, stored := true,
             evicted := true }, some front)
        else
          ({ space := { gens := s.gens.erase front, tombs := s.tombs.dropOldest }, stored := false, evicted := true },
            some front) := by
  have hevict : s.evictOldest = some (front, { gens := s.gens.erase front, tombs := s.tombs.dropOldest }) := by
    rw [Space.evictOldest, hfront]
  have hnew' : key ∉ s.gens.erase front := fun h => hnew (AList.mem_erase.mp h).2
  have hpos : 0 < s.gens.keys.length := List.length_pos_of_mem (AList.mem_keys.mp hin)
  have hlength := length_erase hin
  simp only [putEvicting, if_pos (And.intro hnew hfull), hevict, putGenBounded_new hnew']
  by_cases hfits : s.gens.keys.length ≤ cap
  · rw [if_pos hfits, if_pos (by omega)]
    rfl
  · rw [if_neg hfits, if_neg (by omega)]
    rfl

end

/-- No tombstone, or no more entries than the capacity: an eviction makes room. -/
def Space.Fits (s : Space K) (cap : ℕ) : Prop := s.tombs.order = [] ∨ s.gens.keys.length ≤ cap

section

variable {s : Space K} {key : K}

/-- An eviction is not wasted just in case the map fits the capacity. -/
theorem putEvicting_pays_iff (hs : s.Tombstoned) (hnew : key ∉ s.gens) (gen cap : ℕ) :
    ((putEvicting s key gen cap).1.evicted = true →
        (putEvicting s key gen cap).1.stored = true
          ∧ (putEvicting s key gen cap).1.space.gens.lookup key = some gen)
      ↔ s.Fits cap := by
  by_cases hroom : s.gens.keys.length < cap
  · rw [putEvicting_below hnew hroom]
    exact ⟨fun _ => .inr (Nat.le_of_lt hroom), fun _ h => (Bool.false_ne_true h).elim⟩
  · have hfull := Nat.le_of_not_lt hroom
    cases horder : s.tombs.order with
    | nil =>
      rw [putEvicting_live hnew hfull horder]
      exact ⟨fun _ => .inl horder, fun _ h => (Bool.false_ne_true h).elim⟩
    | cons front rest =>
      have hin : front ∈ s.gens := hs front (horder ▸ List.mem_cons_self)
      rw [putEvicting_full hnew hfull horder hin]
      by_cases hfits : s.gens.keys.length ≤ cap
      · rw [if_pos hfits]
        exact ⟨fun _ => .inr hfits, fun _ _ => ⟨rfl, AList.lookup_insert _⟩⟩
      · rw [if_neg hfits]
        refine ⟨fun h => (Bool.false_ne_true (h rfl).1).elim, ?_⟩
        rintro (hnone | hle)
        · rw [horder] at hnone
          cases hnone
        · exact (hfits hle).elim

/-- The caller that records an install loses a tombstone only where its first attempt does: an
attempt that evicts is not made again. -/
theorem recordGen_pays_iff (hs : s.Tombstoned) (hnew : key ∉ s.gens) (c : Caps) (gen : ℕ) :
    ((∃ k ∈ s.tombs.order, k ∉ (recordGen c s key gen false).2.gens) →
        (recordGen c s key gen false).2.gens.lookup key = some gen)
      ↔ s.Fits c.recvCap := by
  by_cases hroom : s.gens.keys.length < c.recvCap
  · have hrecord : (recordGen c s key gen false).2.gens = s.gens.insert key gen := by
      simp only [recordGen, putGrowing, putGenEvictingTombstones, putEvicting_below hnew hroom]
      rfl
    rw [hrecord]
    exact ⟨fun _ => .inr (Nat.le_of_lt hroom), fun _ _ => AList.lookup_insert _⟩
  · have hfull := Nat.le_of_not_lt hroom
    cases horder : s.tombs.order with
    | nil => exact ⟨fun _ => .inl horder, fun _ ⟨k, hk, _⟩ => (List.not_mem_nil hk).elim⟩
    | cons front rest =>
      have hin : front ∈ s.gens := hs front (horder ▸ List.mem_cons_self)
      have hput := putEvicting_full hnew hfull horder hin gen
      by_cases hfits : s.gens.keys.length ≤ c.recvCap
      · rw [if_pos hfits] at hput
        have hrecord : (recordGen c s key gen false).2.gens = (s.gens.erase front).insert key gen := by
          simp only [recordGen, putGrowing, putGenEvictingTombstones, hput]
          rfl
        rw [hrecord]
        exact ⟨fun _ => .inr hfits, fun _ _ => AList.lookup_insert _⟩
      · rw [if_neg hfits] at hput
        have hrecord : (recordGen c s key gen false).2.gens = s.gens.erase front := by
          simp only [recordGen, putGrowing, putGenEvictingTombstones, hput]
          rfl
        rw [hrecord]
        refine ⟨fun h => ?_, ?_⟩
        · have hlost : front ∉ s.gens.erase front := fun hmem => (AList.mem_erase.mp hmem).1 rfl
          have hstored := h ⟨front, List.mem_cons_self, hlost⟩
          have hmem : key ∈ s.gens.erase front := AList.lookup_isSome.mp (by rw [hstored]; rfl)
          exact (hnew (AList.mem_erase.mp hmem).2).elim
        · rintro (hnone | hle)
          · rw [horder] at hnone
            cases hnone
          · exact (hfits hle).elim

end

/-- **Evictions and what they buy.** In a space whose tombstones are keys of its map, for a new
key and any capacity: an attempt that evicts a tombstone stores the key's generation just in
case there is no tombstone to evict or the map has no more entries than the capacity. So for
the bare attempt, for the scoped one with its index, and for the call that records an install
under the capacity in force. -/
theorem eviction_pays_iff (s : Space K) (hs : s.Tombstoned) (key : K) (hnew : key ∉ s.gens) (t : Scoped K)
    (ht : t.space.Tombstoned) (skey : ScopedDeleteKey K) (hsnew : skey ∉ t.space.gens) (gen cap : ℕ) (c : Caps)
    (hgen : gen ≠ 0) :
    (((putGenEvictingTombstones key gen s cap).evicted = true →
          (putGenEvictingTombstones key gen s cap).stored = true
            ∧ (putGenEvictingTombstones key gen s cap).space.gens.lookup key = some gen)
        ↔ s.tombs.order = [] ∨ s.gens.keys.length ≤ cap)
      ∧ (((putScopedGenEvictingTombstones skey gen t cap).evicted = true →
          (putScopedGenEvictingTombstones skey gen t cap).stored = true
            ∧ (putScopedGenEvictingTombstones skey gen t cap).space.space.gens.lookup skey = some gen)
        ↔ t.space.tombs.order = [] ∨ t.space.gens.keys.length ≤ cap)
      ∧ (((∃ k ∈ s.tombs.order, k ∉ (recordInstalledGenCore c s key gen).2.gens) →
          (recordInstalledGenCore c s key gen).2.gens.lookup key = some gen)
        ↔ s.tombs.order = [] ∨ s.gens.keys.length ≤ c.recvCap) := by
  refine ⟨putEvicting_pays_iff hs hnew gen cap, putEvicting_pays_iff ht hsnew gen cap, ?_⟩
  rw [recordInstalledGenCore, if_neg hgen]
  exact recordGen_pays_iff hs hnew c gen

/-- Keys 1 and 2 are live, key 3 is a tombstone. -/
def oneTombstone : Space ℕ :=
  ⟨(((∅ : GoMap ℕ ℕ).insert 1 10).insert 2 20).insert 3 30, ⟨[3], List.nodup_singleton 3⟩⟩

theorem oneTombstone_tombstoned : oneTombstone.Tombstoned := by
  unfold Space.Tombstoned
  decide

def oneScopedTombstone : Scoped ℕ :=
  ⟨⟨(∅ : GoMap (ScopedDeleteKey ℕ) ℕ).insert ⟨0, 3⟩ 30, ⟨[⟨0, 3⟩], List.nodup_singleton _⟩⟩, ∅⟩

theorem oneScopedTombstone_tombstoned : oneScopedTombstone.space.Tombstoned := by
  unfold Space.Tombstoned
  decide

theorem eviction_pays_iff_atCap :
    (putGenEvictingTombstones 4 40 oneTombstone 3).evicted = true
      ∧ (putGenEvictingTombstones 4 40 oneTombstone 3).stored = true := by
  have hevicted : (putGenEvictingTombstones 4 40 oneTombstone 3).evicted = true := by decide
  exact ⟨hevicted, ((eviction_pays_iff oneTombstone oneTombstone_tombstoned 4 (by decide) oneScopedTombstone
    oneScopedTombstone_tombstoned ⟨0, 4⟩ (by decide) 40 3 ⟨0, 0, 0⟩ (by decide)).1.mpr (.inr (by decide)) hevicted).1⟩

/-- Under a capacity that has been lowered to two the tombstone is lost for nothing. -/
theorem eviction_wasted :
    ¬ ∀ (s : Space ℕ) (key gen cap : ℕ), s.Tombstoned → key ∉ s.gens →
        (putGenEvictingTombstones key gen s cap).evicted = true →
          (putGenEvictingTombstones key gen s cap).stored = true := by
  intro h
  have hstored := h oneTombstone 4 40 2 oneTombstone_tombstoned (by decide) (by decide)
  revert hstored
  decide

end Xpf.GenGuard
