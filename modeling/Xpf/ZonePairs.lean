/-
The zone pairs that the policies can tell apart, for the slots of the cold-path histogram:
`configured_zone_pairs_bounded` of `userspace-dp/src/policy.rs`.

The pairs named by exact rules come first. The pairs of the wildcard and global rules follow
in ascending order: each rule is a stream of the pairs of its two sides, and the streams are
merged until the slots are used up. A rule for any zone on both sides is taken to subsume all
other wildcard and global rules, whose streams are then dropped.
-/
import Mathlib.Data.Finite.Prod
import Mathlib.Data.Prod.Lex
import Xpf.MergeStreams
import Xpf.PolicyFirstMatch

set_option autoImplicit false

namespace Xpf.Policies

open Xpf.Tables Xpf.MergeStreams

/-! ## Zones and pairs -/

/-- The order of zone ids. -/
@[reducible] def zoneIdOrder : LinearOrder UInt32 where
  le_refl := UInt32.le_refl
  le_trans := fun _ _ _ => UInt32.le_trans
  lt_iff_le_not_ge := fun a b => by
    rw [UInt32.lt_iff_toNat_lt, UInt32.le_iff_toNat_le, UInt32.le_iff_toNat_le]
    omega
  le_antisymm := fun _ _ => UInt32.le_antisymm
  le_total := UInt32.le_total
  toDecidableLE := inferInstance

attribute [local instance] zoneIdOrder

structure ZonePair where
  fromId : UInt32
  toId : UInt32
  deriving DecidableEq

/-- Pairs are ordered by their first zone, then by their second. -/
instance : LinearOrder ZonePair :=
  LinearOrder.lift' (fun p : ZonePair => toLex (p.fromId.toNat, p.toId.toNat)) fun p q h => by
    obtain ⟨hfrom, hto⟩ := Prod.mk.inj (toLex.injective h)
    cases p
    cases q
    congr
    · exact UInt32.toNat_inj.mp hfrom
    · exact UInt32.toNat_inj.mp hto

theorem ZonePair.lt_iff {p q : ZonePair} :
    p < q ↔ p.fromId < q.fromId ∨ p.fromId = q.fromId ∧ p.toId < q.toId := by
  have hlex : p < q ↔ toLex (p.fromId.toNat, p.toId.toNat) < toLex (q.fromId.toNat, q.toId.toNat) := Iff.rfl
  rw [hlex, Prod.Lex.lt_iff, UInt32.lt_iff_toNat_lt, UInt32.lt_iff_toNat_lt, ← UInt32.toNat_inj]
  rfl

/-- `ZONE_ID_RESERVED_MIN`. -/
def zoneIdReservedMin : UInt32 := 0xFFFFFFFE

/-- `COLD_PATH_ASSIGNABLE_SLOTS`. -/
def coldPathAssignableSlots : ℕ := 255

def isConcrete (id : UInt32) : Bool := id ≠ 0 && id < zoneIdReservedMin

/-- The pair that a key of the exact index packs. -/
def unpackKey (key : UInt64) : ZonePair := ⟨(key >>> 32).toUInt32, (key &&& 0xFFFFFFFF).toUInt32⟩

/-- The policy state with the ids of the concrete zones, which the parser sorts and
deduplicates. -/
structure ZonedState extends PolicyState where
  concreteZoneIds : List UInt32
  ascending : Ascending concreteZoneIds

/-- The zones of the parser: those of the table that are neither reserved nor functional. -/
def ZonedState.ofParsed (st : PolicyState) (zoneIds : List UInt32) : ZonedState where
  toPolicyState := st
  concreteZoneIds := sortDedup (zoneIds.filter fun id => isConcrete id && !st.functionalZoneIds.contains id)
  ascending := ascending_sortDedup _

/-! ## The streams of the wildcard and global rules -/

/-- The pairs of two sides that a rule still has to give. -/
structure ScopeStream where
  froms : List UInt32
  tos : List UInt32
  fi : ℕ
  ti : ℕ

namespace ScopeStream

def new (froms tos : List UInt32) : ScopeStream := ⟨froms, tos, 0, 0⟩

def peek (s : ScopeStream) : Option ZonePair := do
  let fromId ← s.froms[s.fi]?
  let toId ← s.tos[s.ti]?
  return ⟨fromId, toId⟩

def advance (s : ScopeStream) : ScopeStream :=
  let ti := s.ti + 1
  if s.tos.length ≤ ti then { s with ti := 0, fi := s.fi + 1 } else { s with ti }

end ScopeStream

/-- All pairs of two sides. -/
def cross (froms tos : List UInt32) : List ZonePair := froms.flatMap fun fromId => tos.map (⟨fromId, ·⟩)

namespace ScopeStream

/-- The pairs from the cursor on. -/
def rest (s : ScopeStream) : List ZonePair :=
  match s.froms.drop s.fi, s.tos.drop s.ti with
  | fromId :: froms, toId :: tos => (toId :: tos).map (⟨fromId, ·⟩) ++ cross froms s.tos
  | _, _ => []

theorem peek_eq (s : ScopeStream) : s.peek = s.rest.head? := by
  rw [peek, rest, ← List.head?_drop, ← List.head?_drop]
  cases s.froms.drop s.fi with
  | nil => rfl
  | cons fromId froms =>
    cases s.tos.drop s.ti with
    | nil => rfl
    | cons toId tos => rfl

theorem rest_advance {s : ScopeStream} {p : ZonePair} (h : s.peek = some p) : s.advance.rest = s.rest.tail := by
  rw [peek_eq] at h
  cases hfroms : s.froms.drop s.fi with
  | nil => simp [rest, hfroms] at h
  | cons fromId froms =>
    cases htos : s.tos.drop s.ti with
    | nil => simp [rest, hfroms, htos] at h
    | cons toId tos =>
      have hfroms' : s.froms.drop (s.fi + 1) = froms := by rw [← List.drop_drop, hfroms]; rfl
      have htos' : s.tos.drop (s.ti + 1) = tos := by rw [← List.drop_drop, htos]; rfl
      have hlen : tos.length = s.tos.length - (s.ti + 1) := by rw [← htos', List.length_drop]
      have hrest : s.rest.tail = tos.map (⟨fromId, ·⟩) ++ cross froms s.tos := by
        rw [rest, hfroms, htos]
        rfl
      rw [hrest, advance]
      by_cases hend : s.tos.length ≤ s.ti + 1
      · -- the row is done: the cursor is at the start of the next one
        have hnil : tos = [] := List.length_eq_zero_iff.mp (by omega)
        rw [if_pos hend, hnil, rest, hfroms', List.drop_zero]
        cases froms with
        | nil => rfl
        | cons fromId' froms =>
          cases hall : s.tos with
          | nil => rw [hall, List.drop_nil] at htos; cases htos
          | cons toId' tos' => rfl
      · have hne : tos ≠ [] := fun hnil => by
          rw [hnil, List.length_nil] at hlen
          omega
        obtain ⟨toId', tos', rfl⟩ := List.exists_cons_of_ne_nil hne
        rw [if_neg hend, rest]
        simp only [hfroms, htos']

/-- The cursor of the merge. -/
def cursor : Cursor ScopeStream ZonePair where
  peek := peek
  advance := advance
  rest := rest
  peek_rest := peek_eq
  rest_advance := fun _ _ => rest_advance

theorem rest_new (froms tos : List UInt32) : (new froms tos).rest = cross froms tos := by
  cases froms with
  | nil => rfl
  | cons fromId froms =>
    cases tos with
    | nil => simp [rest, new, cross]
    | cons toId tos => rfl

end ScopeStream

theorem mem_cross {froms tos : List UInt32} {p : ZonePair} : p ∈ cross froms tos ↔ p.fromId ∈ froms ∧ p.toId ∈ tos := by
  simp only [cross, List.mem_flatMap, List.mem_map]
  constructor
  · rintro ⟨fromId, hfrom, toId, hto, rfl⟩
    exact ⟨hfrom, hto⟩
  · rintro ⟨hfrom, hto⟩
    exact ⟨p.fromId, hfrom, p.toId, hto, rfl⟩

theorem ascending_cross {froms tos : List UInt32} (hfroms : Ascending froms) (htos : Ascending tos) :
    Ascending (cross froms tos) := by
  rw [Ascending, cross, List.pairwise_flatMap]
  refine ⟨fun fromId _ => ?_, hfroms.imp fun {f f'} hlt => ?_⟩
  · refine List.pairwise_map.mpr (htos.imp fun {t t'} hlt => ?_)
    exact ZonePair.lt_iff.mpr (.inr ⟨rfl, hlt⟩)
  · intro p hp q hq
    obtain ⟨t, -, rfl⟩ := List.mem_map.mp hp
    obtain ⟨t', -, rfl⟩ := List.mem_map.mp hq
    exact ZonePair.lt_iff.mpr (.inl hlt)

/-! ## The bounded list -/

structure ConfiguredZonePairs where
  pairs : List ZonePair
  overflow : Bool

namespace ZonedState

variable (st : ZonedState)

/-- The pairs of the exact index between concrete zones. -/
def exactPairs : List ZonePair :=
  sortDedup ((st.zonePairIndex.keys.map unpackKey).filter fun p => isConcrete p.fromId && isConcrete p.toId)

/-- The zones that `any` can stand for. -/
def concrete : List UInt32 := st.concreteZoneIds.filter isConcrete

def scopeSide : GlobalZoneScope → List UInt32
  | .any => st.concrete
  | .zones ids => sortDedup (ids.filter isConcrete)

/-- The streams of the global rules, or none where one of them is for any zone on both sides. -/
def globalStreams : List ℕ → Option (List ScopeStream)
  | [] => some []
  | idx :: indices =>
    match st.rules[idx]? with
    | none => globalStreams indices
    | some rule =>
      if rule.globalFromZone = .any ∧ rule.globalToZone = .any then none
      else
        let froms := st.scopeSide rule.globalFromZone
        let tos := st.scopeSide rule.globalToZone
        if froms.isEmpty || tos.isEmpty then globalStreams indices
        else (globalStreams indices).map (ScopeStream.new froms tos :: ·)

def fromAnyStreams : List ScopeStream :=
  (sortDedup (st.fromAnyIndex.keys.filter isConcrete)).map fun toId => .new st.concrete [toId]

def toAnyStreams : List ScopeStream :=
  (sortDedup (st.toAnyIndex.keys.filter isConcrete)).map fun fromId => .new [fromId] st.concrete

def streams : List ScopeStream :=
  let everyPair := [ScopeStream.new st.concrete st.concrete]
  if !st.bothAnyIndices.isEmpty then everyPair
  else
    match st.globalStreams st.globalIndices with
    | none => everyPair
    | some globals => st.fromAnyStreams ++ st.toAnyStreams ++ globals

def configuredZonePairsBounded (limit : ℕ) : ConfiguredZonePairs :=
  let limit := min limit coldPathAssignableSlots
  let exact := st.exactPairs
  let slotsLeft := limit - exact.length
  let (wildcardPairs, overflow) := merge ScopeStream.cursor (exact.contains ·) slotsLeft st.streams
  { pairs := exact ++ wildcardPairs, overflow }

/-! ## What the rules cover -/

/-- An exact rule names the pair, between concrete zones. -/
def Exact (p : ZonePair) : Prop :=
  isConcrete p.fromId = true ∧ isConcrete p.toId = true ∧ zonePairKey p.fromId p.toId ∈ st.zonePairIndex

/-- `any` can stand for the zone. -/
def InUniverse (id : UInt32) : Prop := id ∈ st.concreteZoneIds ∧ isConcrete id = true

/-- A side of a global rule takes the zone. -/
def SideCovers : GlobalZoneScope → UInt32 → Prop
  | .any, id => st.InUniverse id
  | .zones ids, id => id ∈ ids ∧ isConcrete id = true

/-- A wildcard or a global rule covers the pair. -/
def Covered (p : ZonePair) : Prop :=
  (st.InUniverse p.fromId ∧ p.toId ∈ st.fromAnyIndex ∧ isConcrete p.toId = true)
    ∨ (p.fromId ∈ st.toAnyIndex ∧ isConcrete p.fromId = true ∧ st.InUniverse p.toId)
    ∨ (st.bothAnyIndices ≠ [] ∧ st.InUniverse p.fromId ∧ st.InUniverse p.toId)
    ∨ ∃ idx ∈ st.globalIndices, ∃ rule, st.rules[idx]? = some rule
        ∧ st.SideCovers rule.globalFromZone p.fromId ∧ st.SideCovers rule.globalToZone p.toId

/-- A rule for any zone on both sides. -/
def Subsumed : Prop :=
  st.bothAnyIndices ≠ []
    ∨ ∃ idx ∈ st.globalIndices, ∃ rule, st.rules[idx]? = some rule
        ∧ rule.globalFromZone = .any ∧ rule.globalToZone = .any

variable {st}

theorem unpackKey_eq_iff {key : UInt64} {p : ZonePair} : unpackKey key = p ↔ key = zonePairKey p.fromId p.toId := by
  have hkey := key.toNat_lt
  have hfrom : (key >>> 32).toUInt32.toNat = key.toNat / 2 ^ 32 := by
    rw [UInt64.toNat_toUInt32, UInt64.toNat_shiftRight]
    simp only [UInt64.reduceToNat, Nat.reduceMod]
    rw [Nat.shiftRight_eq_div_pow]
    omega
  have hto : (key &&& 0xFFFFFFFF).toUInt32.toNat = key.toNat % 2 ^ 32 := by
    have hmask : key.toNat &&& 4294967295 = key.toNat % 2 ^ 32 := Nat.and_two_pow_sub_one_eq_mod key.toNat 32
    rw [UInt64.toNat_toUInt32, UInt64.toNat_and]
    simp only [UInt64.reduceToNat]
    rw [hmask]
    omega
  obtain ⟨fromId, toId⟩ := p
  have hlt := toId.toNat_lt
  rw [unpackKey, ZonePair.mk.injEq, ← UInt32.toNat_inj, ← UInt32.toNat_inj, hfrom, hto, ← UInt64.toNat_inj,
    zonePairKey_toNat]
  dsimp only
  omega

theorem mem_exactPairs {p : ZonePair} : p ∈ st.exactPairs ↔ st.Exact p := by
  rw [exactPairs, mem_sortDedup, List.mem_filter, Bool.and_eq_true, Exact, AList.mem_keys, List.mem_map]
  constructor
  · rintro ⟨⟨key, hkey, hp⟩, hfrom, hto⟩
    rw [unpackKey_eq_iff] at hp
    exact ⟨hfrom, hto, hp ▸ hkey⟩
  · rintro ⟨hfrom, hto, hkey⟩
    exact ⟨⟨_, hkey, unpackKey_eq_iff.mpr rfl⟩, hfrom, hto⟩

theorem mem_concrete {id : UInt32} : id ∈ st.concrete ↔ st.InUniverse id := List.mem_filter

theorem ascending_concrete : Ascending st.concrete := st.ascending.filter _

theorem mem_scopeSide {scope : GlobalZoneScope} {id : UInt32} : id ∈ st.scopeSide scope ↔ st.SideCovers scope id := by
  cases scope with
  | any => exact mem_concrete
  | zones ids => rw [scopeSide, mem_sortDedup, List.mem_filter, SideCovers]

theorem ascending_scopeSide (scope : GlobalZoneScope) : Ascending (st.scopeSide scope) := by
  cases scope with
  | any => exact ascending_concrete
  | zones ids => exact ascending_sortDedup _

/-- The streams ascend and hold the pairs of the predicate. -/
def Streams (streams : List ScopeStream) (covers : ZonePair → Prop) : Prop :=
  (∀ s ∈ streams, Ascending s.rest) ∧ ∀ p, Held ScopeStream.cursor streams p ↔ covers p

theorem Streams.append {l l' : List ScopeStream} {covers covers' : ZonePair → Prop} (h : Streams l covers)
    (h' : Streams l' covers') : Streams (l ++ l') fun p => covers p ∨ covers' p := by
  refine ⟨fun s hs => (List.mem_append.mp hs).elim (h.1 s) (h'.1 s), fun p => ?_⟩
  dsimp only
  rw [← h.2, ← h'.2]
  simp only [Held, List.mem_append, or_and_right, exists_or]

theorem Streams.cons {froms tos : List UInt32} (hfroms : Ascending froms) (htos : Ascending tos)
    {l : List ScopeStream} {covers : ZonePair → Prop} (h : Streams l covers) :
    Streams (.new froms tos :: l) fun p => (p.fromId ∈ froms ∧ p.toId ∈ tos) ∨ covers p := by
  refine ⟨List.forall_mem_cons.mpr ⟨?_, h.1⟩, fun p => ?_⟩
  · rw [ScopeStream.rest_new]
    exact ascending_cross hfroms htos
  · dsimp only
    rw [← h.2, ← mem_cross, ← ScopeStream.rest_new]
    simp only [Held, List.exists_mem_cons_iff]
    rfl

theorem streams_nil : Streams [] fun _ => False :=
  ⟨fun _ hs => (List.not_mem_nil hs).elim, fun _ => ⟨fun ⟨_, hs, _⟩ => List.not_mem_nil hs, False.elim⟩⟩

theorem Streams.congr {l : List ScopeStream} {covers covers' : ZonePair → Prop} (h : Streams l covers)
    (heq : ∀ p, covers p ↔ covers' p) : Streams l covers' := ⟨h.1, fun p => (h.2 p).trans (heq p)⟩

theorem ascending_singleton {α : Type} [LinearOrder α] (a : α) : Ascending [a] := List.pairwise_singleton _ a

theorem streams_fromAny :
    Streams st.fromAnyStreams fun p => st.InUniverse p.fromId ∧ p.toId ∈ st.fromAnyIndex ∧ isConcrete p.toId = true := by
  have hall : ∀ ids : List UInt32, Streams (ids.map fun toId => .new st.concrete [toId])
      fun p => st.InUniverse p.fromId ∧ p.toId ∈ ids := by
    intro ids
    induction ids with
    | nil => exact streams_nil.congr fun p => by simp
    | cons id ids ih =>
      refine (ih.cons ascending_concrete (ascending_singleton id)).congr fun p => ?_
      rw [mem_concrete, List.mem_singleton, List.mem_cons, ← and_or_left]
  refine (hall _).congr fun p => ?_
  rw [mem_sortDedup, List.mem_filter, AList.mem_keys]

theorem streams_toAny :
    Streams st.toAnyStreams fun p => p.fromId ∈ st.toAnyIndex ∧ isConcrete p.fromId = true ∧ st.InUniverse p.toId := by
  have hall : ∀ ids : List UInt32, Streams (ids.map fun fromId => .new [fromId] st.concrete)
      fun p => p.fromId ∈ ids ∧ st.InUniverse p.toId := by
    intro ids
    induction ids with
    | nil => exact streams_nil.congr fun p => by simp
    | cons id ids ih =>
      refine (ih.cons (ascending_singleton id) ascending_concrete).congr fun p => ?_
      rw [mem_concrete, List.mem_singleton, List.mem_cons, ← or_and_right]
  refine (hall _).congr fun p => ?_
  rw [mem_sortDedup, List.mem_filter, AList.mem_keys, and_assoc]

/-- A global rule among the indices is for any zone on both sides. -/
def GlobalForAny (st : ZonedState) (indices : List ℕ) : Prop :=
  ∃ idx ∈ indices, ∃ rule, st.rules[idx]? = some rule ∧ rule.globalFromZone = .any ∧ rule.globalToZone = .any

/-- A global rule among the indices covers the pair. -/
def GlobalCovers (st : ZonedState) (indices : List ℕ) (p : ZonePair) : Prop :=
  ∃ idx ∈ indices, ∃ rule, st.rules[idx]? = some rule
    ∧ st.SideCovers rule.globalFromZone p.fromId ∧ st.SideCovers rule.globalToZone p.toId

/-- The loop over the global rules stops at the first one for any zone on both sides. -/
theorem globalStreams_cases (indices : List ℕ) :
    (st.globalStreams indices = none ∧ st.GlobalForAny indices)
      ∨ (¬ st.GlobalForAny indices
        ∧ ∃ streams, st.globalStreams indices = some streams ∧ Streams streams (st.GlobalCovers indices)) := by
  induction indices with
  | nil =>
    refine .inr ⟨fun ⟨_, h, _⟩ => List.not_mem_nil h, [], rfl, streams_nil.congr fun p => ?_⟩
    exact ⟨False.elim, fun ⟨_, h, _⟩ => List.not_mem_nil h⟩
  | cons idx indices ih =>
    have hforAny : st.GlobalForAny (idx :: indices) ↔ (∃ rule, st.rules[idx]? = some rule
        ∧ rule.globalFromZone = .any ∧ rule.globalToZone = .any) ∨ st.GlobalForAny indices := by
      simp only [GlobalForAny, List.exists_mem_cons_iff]
    have hcovers : ∀ p, st.GlobalCovers (idx :: indices) p ↔ (∃ rule, st.rules[idx]? = some rule
        ∧ st.SideCovers rule.globalFromZone p.fromId ∧ st.SideCovers rule.globalToZone p.toId)
          ∨ st.GlobalCovers indices p := by
      intro p
      simp only [GlobalCovers, List.exists_mem_cons_iff]
    rw [globalStreams, hforAny]
    cases hrule : st.rules[idx]? with
    | none =>
      simp only [reduceCtorEq, false_and, exists_false, false_or]
      refine ih.imp id fun ⟨hnone, streams, heq, h⟩ => ⟨hnone, streams, heq, h.congr fun p => ?_⟩
      rw [hcovers, hrule]
      simp
    | some rule =>
      simp only [Option.some.injEq, exists_eq_left']
      by_cases hany : rule.globalFromZone = .any ∧ rule.globalToZone = .any
      · rw [if_pos hany]
        exact .inl ⟨rfl, .inl hany⟩
      · rw [if_neg hany]
        simp only [hany, false_or]
        have hfroms := @ascending_scopeSide st rule.globalFromZone
        have htos := @ascending_scopeSide st rule.globalToZone
        have hside : ∀ p : ZonePair, p.fromId ∈ st.scopeSide rule.globalFromZone ∧ p.toId ∈ st.scopeSide rule.globalToZone
            ↔ ∃ r, st.rules[idx]? = some r ∧ st.SideCovers r.globalFromZone p.fromId
              ∧ st.SideCovers r.globalToZone p.toId := by
          intro p
          rw [hrule]
          simp only [Option.some.injEq, exists_eq_left', mem_scopeSide]
        by_cases hempty : ((st.scopeSide rule.globalFromZone).isEmpty || (st.scopeSide rule.globalToZone).isEmpty) = true
        · rw [if_pos hempty]
          refine ih.imp id fun ⟨hnone, streams, heq, h⟩ => ⟨hnone, streams, heq, h.congr fun p => ?_⟩
          -- an empty side covers no zone
          rw [hcovers, ← hside]
          refine ⟨.inr, fun hor => hor.resolve_left ?_⟩
          rintro ⟨hfrom, hto⟩
          rw [Bool.or_eq_true, List.isEmpty_iff, List.isEmpty_iff] at hempty
          rcases hempty with hnil | hnil
          · rw [hnil] at hfrom
            exact List.not_mem_nil hfrom
          · rw [hnil] at hto
            exact List.not_mem_nil hto
        · rw [if_neg hempty]
          rcases ih with ⟨heq, hfor⟩ | ⟨hnone, streams, heq, h⟩
          · exact .inl ⟨by rw [heq]; rfl, hfor⟩
          · refine .inr ⟨hnone, _, by rw [heq]; rfl, (h.cons hfroms htos).congr fun p => ?_⟩
            rw [hcovers, hside]

theorem subsumed_iff : st.Subsumed ↔ st.bothAnyIndices ≠ [] ∨ st.GlobalForAny st.globalIndices := Iff.rfl

theorem streams_universe :
    Streams [.new st.concrete st.concrete] fun p => st.InUniverse p.fromId ∧ st.InUniverse p.toId :=
  (streams_nil.cons ascending_concrete ascending_concrete).congr fun p => by
    rw [mem_concrete, mem_concrete, or_false]

/-- The streams of the merge: all that the rules cover, or the pairs of the universe where a
rule subsumes the others. -/
theorem streams_spec :
    (st.Subsumed → Streams st.streams fun p => st.InUniverse p.fromId ∧ st.InUniverse p.toId)
      ∧ (¬ st.Subsumed → Streams st.streams st.Covered) := by
  rw [subsumed_iff, streams]
  by_cases hboth : st.bothAnyIndices = []
  · simp only [hboth, ne_eq, not_true_eq_false, false_or, List.isEmpty_nil, Bool.not_true, Bool.false_eq_true, if_false]
    rcases st.globalStreams_cases st.globalIndices with ⟨heq, hfor⟩ | ⟨hnone, globals, heq, h⟩
    · rw [heq]
      exact ⟨fun _ => streams_universe, fun hnot => (hnot hfor).elim⟩
    · rw [heq]
      refine ⟨fun hfor => (hnone hfor).elim, fun _ => ?_⟩
      refine ((streams_fromAny.append streams_toAny).append h).congr fun p => ?_
      simp only [Covered, hboth, ne_eq, not_true_eq_false, false_and, false_or, or_assoc]
      rfl
  · have hnonempty : (!st.bothAnyIndices.isEmpty) = true := by
      rw [Bool.not_eq_true', ← Bool.not_eq_true, List.isEmpty_iff]
      exact hboth
    rw [if_pos hnonempty]
    exact ⟨fun _ => streams_universe, fun hnot => (hnot (.inl hboth)).elim⟩

/-! ## The claim of the bound -/

instance : Finite ZonePair := by
  refine Finite.of_injective
    (fun p => ((⟨p.fromId.toNat, p.fromId.toNat_lt⟩, ⟨p.toId.toNat, p.toId.toNat_lt⟩) : Fin (2 ^ 32) × Fin (2 ^ 32))) ?_
  rintro ⟨fromId, toId⟩ ⟨fromId', toId'⟩ h
  obtain ⟨hfrom, hto⟩ := Prod.mk.inj h
  congr
  · exact UInt32.toNat_inj.mp (Fin.mk.inj hfrom)
  · exact UInt32.toNat_inj.mp (Fin.mk.inj hto)

/-- The number of keys of the exact index between concrete zones. -/
def exactCount (st : ZonedState) : ℕ :=
  st.zonePairIndex.keys.countP fun key => isConcrete (unpackKey key).fromId && isConcrete (unpackKey key).toId

/-- The pairs of the universe that no exact rule names, in ascending order. -/
def universePairs (st : ZonedState) : List ZonePair :=
  (cross st.concrete st.concrete).filter fun p => zonePairKey p.fromId p.toId ∉ st.zonePairIndex

/-- The list is right: no more pairs than the limit and the slots allow, none twice, the exact
pairs in ascending order and then the other covered pairs in ascending order, cut at the limit,
with the flag for a pair that is left out. -/
def RightPrefix (st : ZonedState) (limit : ℕ) : Prop :=
  let result := st.configuredZonePairsBounded limit
  let bound := min limit coldPathAssignableSlots
  result.pairs.length ≤ bound ∧ result.pairs.Nodup
    ∧ ∃ exact others, Ascending exact ∧ (∀ p, p ∈ exact ↔ st.Exact p)
      ∧ Ascending others ∧ (∀ p, p ∈ others ↔ st.Covered p ∧ ¬ st.Exact p)
      ∧ result.pairs = (exact ++ others).take bound
      ∧ (result.overflow = true ↔ ∃ p ∈ exact ++ others, p ∉ result.pairs)

theorem length_exactPairs : st.exactPairs.length = st.exactCount := by
  have hinj : Function.Injective unpackKey := fun key key' h =>
    (unpackKey_eq_iff.mp h).trans (unpackKey_eq_iff.mp rfl).symm
  rw [exactPairs, Ascending.length_sortDedup ((st.zonePairIndex.keys_nodup.map hinj).filter _), List.filter_map,
    List.length_map, exactCount, List.countP_eq_length_filter]
  rfl

theorem mem_universePairs {p : ZonePair} :
    p ∈ st.universePairs ↔ (st.InUniverse p.fromId ∧ st.InUniverse p.toId) ∧ ¬ st.Exact p := by
  rw [universePairs, List.mem_filter, mem_cross, mem_concrete, mem_concrete, decide_eq_true_eq]
  refine and_congr_right fun ⟨hfrom, hto⟩ => not_congr ?_
  exact ⟨fun h => ⟨hfrom.2, hto.2, h⟩, fun h => h.2.2⟩

/-- What the function returns, by the ascending list of what its streams hold besides the exact
pairs. -/
theorem bounded_eq (limit : ℕ) {held : List ZonePair} (hheld : Ascending held) {covers : ZonePair → Prop}
    (hstreams : Streams st.streams covers) (hmem : ∀ p, p ∈ held ↔ covers p ∧ ¬ st.Exact p) :
    st.configuredZonePairsBounded limit
      = { pairs := st.exactPairs ++ held.take (min limit coldPathAssignableSlots - st.exactCount),
          overflow := decide (min limit coldPathAssignableSlots - st.exactCount < held.length) } := by
  have hexcluded : ∀ p, p ∈ held ↔ Held ScopeStream.cursor st.streams p ∧ st.exactPairs.contains p = false := by
    intro p
    rw [hmem, hstreams.2, ← mem_exactPairs, ← Bool.not_eq_true, List.contains_iff_mem]
  rw [configuredZonePairsBounded, merge_eq hstreams.1 hheld hexcluded, length_exactPairs]

/-- A list without repetitions loses an element to a cut just in case it is longer. -/
theorem exists_not_mem_take_iff {α : Type} {l : List α} (h : l.Nodup) (n : ℕ) :
    (∃ a ∈ l, a ∉ l.take n) ↔ n < l.length := by
  constructor
  · rintro ⟨a, ha, hnot⟩
    by_contra hle
    rw [List.take_of_length_le (Nat.le_of_not_lt hle)] at hnot
    exact hnot ha
  · intro hlt
    have hdrop : l[n] ∈ l.drop n := List.mem_drop_iff_getElem.mpr ⟨0, by omega, rfl⟩
    refine ⟨l[n], List.getElem_mem hlt, fun htake => ?_⟩
    exact List.disjoint_take_drop h (Nat.le_refl n) htake hdrop

/-- The list is right just in case the exact pairs fit the bound and the streams go with the
covered pairs as far as the slots that are left, and one further. -/
theorem rightPrefix_iff {limit : ℕ} {held others : List ZonePair} (hheld : Ascending held) (hothers : Ascending others)
    {covers : ZonePair → Prop} (hstreams : Streams st.streams covers) (hmem : ∀ p, p ∈ held ↔ covers p ∧ ¬ st.Exact p)
    (hmemOthers : ∀ p, p ∈ others ↔ st.Covered p ∧ ¬ st.Exact p) :
    st.RightPrefix limit ↔ st.exactCount ≤ min limit coldPathAssignableSlots
      ∧ (held.take (min limit coldPathAssignableSlots - st.exactCount)
          = others.take (min limit coldPathAssignableSlots - st.exactCount)
        ∧ (min limit coldPathAssignableSlots - st.exactCount < held.length
          ↔ min limit coldPathAssignableSlots - st.exactCount < others.length)) := by
  rw [RightPrefix, bounded_eq limit hheld hstreams hmem]
  generalize min limit coldPathAssignableSlots = bound
  dsimp only
  have hexact : Ascending st.exactPairs := ascending_sortDedup _
  have hnodup : (st.exactPairs ++ others).Nodup := by
    refine List.nodup_append.mpr ⟨hexact.nodup, hothers.nodup, fun p hp q hq heq => ?_⟩
    exact ((hmemOthers q).mp hq).2 (mem_exactPairs.mp (heq ▸ hp))
  have hlength : (st.exactPairs ++ others).length = st.exactCount + others.length := by
    rw [List.length_append, length_exactPairs]
  have htake : st.exactCount ≤ bound →
      (st.exactPairs ++ others).take bound = st.exactPairs ++ others.take (bound - st.exactCount) := by
    intro hfits
    rw [List.take_append, length_exactPairs, List.take_of_length_le (length_exactPairs.trans_le hfits)]
  constructor
  · rintro ⟨hlen, -, exact, others', hexact', hmemExact, hothers', hmemOthers', hpairs, hoverflow⟩
    have hsame : exact = st.exactPairs := hexact'.ext hexact fun p => (hmemExact p).trans mem_exactPairs.symm
    have hsame' : others' = others := hothers'.ext hothers fun p => (hmemOthers' p).trans (hmemOthers p).symm
    subst hsame hsame'
    have hfits : st.exactCount ≤ bound := by
      rw [List.length_append, length_exactPairs] at hlen
      omega
    refine ⟨hfits, ?_, ?_⟩
    · rw [htake hfits] at hpairs
      exact List.append_cancel_left hpairs
    · rw [hpairs, exists_not_mem_take_iff hnodup, decide_eq_true_eq, hlength] at hoverflow
      rw [hoverflow]
      omega
  · rintro ⟨hfits, hcut, hmore⟩
    have hpairs : st.exactPairs ++ held.take (bound - st.exactCount) = (st.exactPairs ++ others).take bound := by
      rw [htake hfits, hcut]
    rw [hpairs]
    refine ⟨List.length_take_le _ _, hnodup.sublist (List.take_sublist _ _), st.exactPairs, others, hexact,
      fun p => mem_exactPairs, hothers, hmemOthers, rfl, ?_⟩
    rw [exists_not_mem_take_iff hnodup, decide_eq_true_eq, hmore, hlength]
    omega

/-- **The bounded list of zone pairs** is right just in case the exact pairs are no more than the
limit and the slots allow and, where a rule for any zone on both sides subsumes the others, every
covered pair outside the universe comes so late that the cut hides it: at least as many pairs of
the universe as slots are left come before it, and one more exists. -/
theorem zonePairs_prefix_iff (st : ZonedState) (limit : ℕ) :
    st.RightPrefix limit ↔
      st.exactCount ≤ min limit coldPathAssignableSlots
        ∧ (st.Subsumed → ∀ p, st.Covered p → ¬ st.Exact p → ¬ (st.InUniverse p.fromId ∧ st.InUniverse p.toId) →
          min limit coldPathAssignableSlots - st.exactCount ≤ st.universePairs.countP (· < p)
            ∧ min limit coldPathAssignableSlots - st.exactCount < st.universePairs.length) := by
  obtain ⟨others, hothers, hmemOthers⟩ := exists_ascending fun p => st.Covered p ∧ ¬ st.Exact p
  by_cases hsub : st.Subsumed
  · have huniverse : Ascending st.universePairs := (ascending_cross ascending_concrete ascending_concrete).filter _
    rw [rightPrefix_iff huniverse hothers (streams_spec.1 hsub) (fun p => mem_universePairs) hmemOthers]
    have hsubset : st.universePairs ⊆ others := by
      intro p hp
      obtain ⟨⟨hfrom, hto⟩, hnot⟩ := mem_universePairs.mp hp
      refine (hmemOthers p).mpr ⟨?_, hnot⟩
      rcases hsub with hboth | ⟨idx, hidx, rule, hrule, hanyFrom, hanyTo⟩
      · exact .inr (.inr (.inl ⟨hboth, hfrom, hto⟩))
      · refine .inr (.inr (.inr ⟨idx, hidx, rule, hrule, ?_, ?_⟩))
        · rw [hanyFrom]
          exact hfrom
        · rw [hanyTo]
          exact hto
    refine and_congr_right fun _ => ?_
    rw [hothers.cut_eq_iff huniverse hsubset]
    constructor
    · intro h _ p hcovered hnot hout
      exact h p ((hmemOthers p).mpr ⟨hcovered, hnot⟩) fun hin => hout (mem_universePairs.mp hin).1
    · intro h p hp hout
      obtain ⟨hcovered, hnot⟩ := (hmemOthers p).mp hp
      exact h hsub p hcovered hnot fun hin => hout (mem_universePairs.mpr ⟨hin, hnot⟩)
  · rw [rightPrefix_iff hothers hothers (streams_spec.2 hsub) hmemOthers hmemOthers]
    exact and_congr_right fun _ => ⟨fun _ h => (hsub h).elim, fun _ => ⟨rfl, Iff.rfl⟩⟩

/-- A rule in each direction between two zones. -/
def bothDirections : Except SnapshotIntegrityError PolicyState :=
  parsePolicyState noAddresses "deny"
    [zoneRule "out" "trust" "untrust" "permit" [], zoneRule "in" "untrust" "trust" "permit" []] twoZones [] []

/-- Two exact pairs are returned under a limit of one. -/
theorem zonePairs_exceed_limit :
    ∃ st, bothDirections = .ok st
      ∧ ((ZonedState.ofParsed st [1, 2]).configuredZonePairsBounded 1).pairs = [⟨1, 2⟩, ⟨2, 1⟩]
      ∧ ¬ (ZonedState.ofParsed st [1, 2]).RightPrefix 1 := by
  have hpairs : ∀ st ∈ bothDirections.toOption,
      ((ZonedState.ofParsed st [1, 2]).configuredZonePairsBounded 1).pairs = [⟨1, 2⟩, ⟨2, 1⟩] := by decide +kernel
  obtain ⟨st, hst, hpair⟩ := exists_ok (by decide +kernel) hpairs
  refine ⟨st, hst, hpair, fun h => ?_⟩
  have hlength := h.1
  rw [hpair] at hlength
  revert hlength
  decide

end ZonedState

end Xpf.Policies
