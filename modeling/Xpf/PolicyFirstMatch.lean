/-
Evaluation is the first match: the tables of the parser against the list of the snapshot.

The parser files the index of every rule under its zones. Each table therefore holds the
positions of one kind of rule, in their order (`Parsed`), and a walk over the positions of a
kind is a walk over the rules of that kind. The loop over the two single-wildcard tables
merges two ascending lists back into the positions of both kinds (`mergeTiers_findIdxs`).
With the rules themselves settled by `RuleOf`, what is left is that a walk of a packet with
its transport header is a search (`walkRules_whole`).
-/
import Xpf.PolicySpec

set_option autoImplicit false

namespace Xpf.Policies

open Xpf.Tables Xpf.PrefixSets
open Xpf.Filters (IpAddr)

/-! ## Keys and positions -/

theorem zonePairKey_toNat (fromId toId : UInt32) :
    (zonePairKey fromId toId).toNat = 2 ^ 32 * fromId.toNat + toId.toNat := by
  have hfrom := fromId.toNat_lt
  have hto := toId.toNat_lt
  rw [zonePairKey, UInt64.toNat_or, UInt64.toNat_shiftLeft]
  simp only [UInt32.toNat_toUInt64, UInt64.reduceToNat, Nat.reduceMod]
  rw [Nat.shiftLeft_eq, Nat.mod_eq_of_lt (by omega), ← Nat.shiftLeft_eq,
    ← Nat.shiftLeft_add_eq_or_of_lt (by omega), Nat.shiftLeft_eq, Nat.mul_comm]

theorem zonePairKey_inj {fromId toId fromId' toId' : UInt32} :
    zonePairKey fromId toId = zonePairKey fromId' toId' ↔ fromId = fromId' ∧ toId = toId' := by
  constructor
  · intro h
    have hnat := congrArg UInt64.toNat h
    rw [zonePairKey_toNat, zonePairKey_toNat] at hnat
    have hto := toId.toNat_lt
    have hto' := toId'.toNat_lt
    exact ⟨UInt32.toNat_inj.mp (by omega), UInt32.toNat_inj.mp (by omega)⟩
  · rintro ⟨rfl, rfl⟩
    rfl

section Positions

variable {α : Type}

theorem mergeLoop_cons_left {n i : ℕ} {l r : List ℕ} (h : ∀ j ∈ r, i ≤ j) :
    mergeLoop (n + 1) (i :: l) r = i :: mergeLoop n l r := by
  cases r with
  | nil => rfl
  | cons j r => rw [mergeLoop, if_pos (h j List.mem_cons_self)]

theorem mergeLoop_cons_right {n j : ℕ} {l r : List ℕ} (h : ∀ i ∈ l, j < i) :
    mergeLoop (n + 1) l (j :: r) = j :: mergeLoop n l r := by
  cases l with
  | nil => rfl
  | cons i l =>
    rw [mergeLoop, if_neg]
    exact Nat.not_le.mpr (h i List.mem_cons_self)

/-- The loop over the positions of two kinds of elements visits the positions of both. -/
theorem mergeLoop_findIdxs (p q : α → Bool) (hdisjoint : ∀ a, p a = true → q a = false) :
    ∀ (l : List α) (s n : ℕ), (l.findIdxs p s).length + (l.findIdxs q s).length ≤ n →
      mergeLoop n (l.findIdxs p s) (l.findIdxs q s) = l.findIdxs (fun a => p a || q a) s
  | [], s, n, _ => by cases n <;> rfl
  | a :: l, s, n, hn => by
    have hlater : ∀ {r : α → Bool}, ∀ j ∈ l.findIdxs r (s + 1), s < j := by
      intro r j hj
      exact List.ge_of_mem_findIdxs j hj
    simp only [List.findIdxs_cons] at hn ⊢
    cases hp : p a with
    | true =>
      have hq := hdisjoint a hp
      simp only [hp, hq, if_true, Bool.false_eq_true, if_false, List.length_cons, Bool.true_or] at hn ⊢
      obtain ⟨n, rfl⟩ : ∃ m, n = m + 1 := ⟨n - 1, by omega⟩
      rw [mergeLoop_cons_left fun j hj => (hlater j hj).le,
        mergeLoop_findIdxs p q hdisjoint l (s + 1) n (by omega)]
    | false =>
      cases hq : q a with
      | true =>
        simp only [hp, hq, if_true, Bool.false_eq_true, if_false, List.length_cons, Bool.or_true] at hn ⊢
        obtain ⟨n, rfl⟩ : ∃ m, n = m + 1 := ⟨n - 1, by omega⟩
        rw [mergeLoop_cons_right hlater, mergeLoop_findIdxs p q hdisjoint l (s + 1) n (by omega)]
      | false =>
        simp only [hp, hq, Bool.false_eq_true, if_false, Bool.or_self] at hn ⊢
        exact mergeLoop_findIdxs p q hdisjoint l (s + 1) n hn

theorem mergeTiers_findIdxs (p q : α → Bool) (hdisjoint : ∀ a, p a = true → q a = false) (l : List α) :
    mergeTiers (l.findIdxs p) (l.findIdxs q) = l.findIdxs fun a => p a || q a :=
  mergeLoop_findIdxs p q hdisjoint l 0 _ (le_refl _)

/-- What stands at the positions of a kind is the sublist of that kind. -/
theorem filterMap_findIdxs (p : α → Bool) : ∀ (l before : List α),
    (l.findIdxs p before.length).filterMap (fun i => (before ++ l)[i]?) = l.filter p
  | [], before => rfl
  | a :: l, before => by
    have ih := filterMap_findIdxs p l (before ++ [a])
    rw [List.length_append, List.length_singleton, List.append_assoc, List.singleton_append] at ih
    rw [List.findIdxs_cons, List.filter_cons]
    split_ifs
    · rw [List.filterMap_cons_some (b := a) (by simp), ih]
    · exact ih

end Positions

/-! ## The tables of a parsed snapshot -/

section Push

variable (st : PolicyState) (rule : PolicyRule) (placement : Placement)

theorem getD_push {κ : Type} [DecidableEq κ] (t : Table κ (List ℕ)) (k k' : κ) (i : ℕ) :
    getD (upsert t k [] fun indices => indices ++ [i]) k' []
      = getD t k' [] ++ if k = k' then [i] else [] := by
  rw [getD_upsert]
  rcases eq_or_ne k' k with rfl | hne
  · rw [if_pos rfl, if_pos rfl]
  · rw [if_neg hne, if_neg hne.symm, List.append_nil]

theorem pushRule_zonePairIndex (fromId toId : UInt32) :
    getD (st.pushRule rule placement).zonePairIndex (zonePairKey fromId toId) []
      = getD st.zonePairIndex (zonePairKey fromId toId) []
        ++ if placement = .zonePair fromId toId then [st.rules.length] else [] := by
  cases placement <;> simp [PolicyState.pushRule, getD_push, zonePairKey_inj]

theorem pushRule_fromAnyIndex (toId : UInt32) :
    getD (st.pushRule rule placement).fromAnyIndex toId []
      = getD st.fromAnyIndex toId [] ++ if placement = .fromAny toId then [st.rules.length] else [] := by
  cases placement <;> simp [PolicyState.pushRule, getD_push]

theorem pushRule_toAnyIndex (fromId : UInt32) :
    getD (st.pushRule rule placement).toAnyIndex fromId []
      = getD st.toAnyIndex fromId [] ++ if placement = .toAny fromId then [st.rules.length] else [] := by
  cases placement <;> simp [PolicyState.pushRule, getD_push]

theorem pushRule_bothAnyIndices :
    (st.pushRule rule placement).bothAnyIndices
      = st.bothAnyIndices ++ if placement = .bothAny then [st.rules.length] else [] := by
  cases placement <;> simp [PolicyState.pushRule]

theorem pushRule_globalIndices :
    (st.pushRule rule placement).globalIndices
      = st.globalIndices ++ if placement = .global then [st.rules.length] else [] := by
  cases placement <;> simp [PolicyState.pushRule]

/-- What does not depend on the placement. -/
theorem pushRule_fields :
    (st.pushRule rule placement).rules = st.rules ++ [rule]
      ∧ (st.pushRule rule placement).books = st.books
      ∧ (st.pushRule rule placement).bookIdToIdx = st.bookIdToIdx
      ∧ (st.pushRule rule placement).hasScheduledRules
        = (st.hasScheduledRules || !rule.schedulerName.isEmpty)
      ∧ (st.pushRule rule placement).defaultAction = st.defaultAction
      ∧ (st.pushRule rule placement).functionalZoneIds = st.functionalZoneIds := by
  cases placement <;> exact ⟨rfl, rfl, rfl, rfl, rfl, rfl⟩

end Push

/-- A snapshot of a rule next to the rule. -/
abbrev RulePair := PolicyRuleSnapshot × PolicyRule

section Parsed

variable (addrs : AddrParsers) (zoneNameToId : String → Option UInt32) (books : List AddressBookSnapshot)

/-- The rule of the pair is filed at the placement. -/
def filedAt (placement : Placement) (pair : RulePair) : Bool :=
  (placeRule zoneNameToId pair.1).toOption = some placement

/-- The state holds the rules of the pairs, and each table the positions of its kind. -/
structure Parsed (entries : List BookEntry) (bookIdToIdx : Table UInt32 ℕ) (pairs : List RulePair)
    (st : PolicyState) : Prop where
  rules : st.rules = pairs.map (·.2)
  ruleOf : ∀ pair ∈ pairs, RuleOf addrs zoneNameToId books entries pair.1 pair.2
  filed : ∀ pair ∈ pairs, ∃ placement, placeRule zoneNameToId pair.1 = .ok placement
  zonePair : ∀ fromId toId, getD st.zonePairIndex (zonePairKey fromId toId) []
    = pairs.findIdxs (filedAt zoneNameToId (.zonePair fromId toId))
  fromAny : ∀ toId, getD st.fromAnyIndex toId [] = pairs.findIdxs (filedAt zoneNameToId (.fromAny toId))
  toAny : ∀ fromId, getD st.toAnyIndex fromId [] = pairs.findIdxs (filedAt zoneNameToId (.toAny fromId))
  bothAny : st.bothAnyIndices = pairs.findIdxs (filedAt zoneNameToId .bothAny)
  global : st.globalIndices = pairs.findIdxs (filedAt zoneNameToId .global)
  books : st.books = entries
  bookIdToIdx : st.bookIdToIdx = bookIdToIdx
  scheduled : st.hasScheduledRules = pairs.any fun pair => !pair.1.schedulerName.isEmpty

variable {addrs zoneNameToId books} {entries : List BookEntry} {bookIdToIdx : Table UInt32 ℕ}

theorem filedAt_of_ok {pair : RulePair} {placement : Placement}
    (h : placeRule zoneNameToId pair.1 = .ok placement) (other : Placement) :
    filedAt zoneNameToId other pair = decide (placement = other) := by
  rw [filedAt, h]
  simp [Except.toOption]

/-- One more rule is one more position in the table of its placement, and in no other. -/
theorem Parsed.push {pairs : List RulePair} {st : PolicyState} {pair : RulePair} {placement : Placement}
    (h : Parsed addrs zoneNameToId books entries bookIdToIdx pairs st)
    (hrule : RuleOf addrs zoneNameToId books entries pair.1 pair.2)
    (hplacement : placeRule zoneNameToId pair.1 = .ok placement) :
    Parsed addrs zoneNameToId books entries bookIdToIdx (pairs ++ [pair])
      (st.pushRule pair.2 placement) := by
  have hlen : st.rules.length = pairs.length := by rw [h.rules, List.length_map]
  have hfind : ∀ other, (pairs ++ [pair]).findIdxs (filedAt zoneNameToId other)
      = pairs.findIdxs (filedAt zoneNameToId other)
        ++ if placement = other then [st.rules.length] else [] := by
    intro other
    rw [List.findIdxs_append, List.findIdxs_singleton, filedAt_of_ok hplacement, hlen, Nat.zero_add]
    simp only [decide_eq_true_eq]
  have hall : ∀ {P : RulePair → Prop}, (∀ p ∈ pairs, P p) → P pair → ∀ p ∈ pairs ++ [pair], P p := by
    intro P hpairs hpair p hp
    rcases List.mem_append.mp hp with hp | hp
    · exact hpairs p hp
    · rw [List.mem_singleton.mp hp]
      exact hpair
  obtain ⟨hrules, hbooks, hbookIds, hscheduled, -, -⟩ := pushRule_fields st pair.2 placement
  refine ⟨?_, hall h.ruleOf hrule, hall h.filed ⟨_, hplacement⟩, ?_, ?_, ?_, ?_, ?_, ?_, ?_, ?_⟩
  · rw [hrules, h.rules, List.map_append]
    rfl
  · intro fromId toId
    rw [pushRule_zonePairIndex, h.zonePair, hfind]
  · intro toId
    rw [pushRule_fromAnyIndex, h.fromAny, hfind]
  · intro fromId
    rw [pushRule_toAnyIndex, h.toAny, hfind]
  · rw [pushRule_bothAnyIndices, h.bothAny, hfind]
  · rw [pushRule_globalIndices, h.global, hfind]
  · rw [hbooks, h.books]
  · rw [hbookIds, h.bookIdToIdx]
  · rw [hscheduled, h.scheduled, hrule.schedulerName, List.any_append]
    simp

theorem Parsed.foldlM : ∀ {todo : List PolicyRuleSnapshot} {pairs : List RulePair} {st st' : PolicyState},
    BooksOf addrs books (entries, bookIdToIdx) →
    Parsed addrs zoneNameToId books entries bookIdToIdx pairs st →
    todo.foldlM (addRule addrs zoneNameToId) st = .ok st' →
    ∃ added, Parsed addrs zoneNameToId books entries bookIdToIdx (pairs ++ added) st'
      ∧ added.map (·.1) = todo ∧ st'.defaultAction = st.defaultAction
      ∧ st'.functionalZoneIds = st.functionalZoneIds
  | [], pairs, st, st', _, h, hfold => by
    obtain rfl := Except.ok.inj hfold
    exact ⟨[], by rwa [List.append_nil], rfl, rfl, rfl⟩
  | snap :: todo, pairs, st, st', hbooks, h, hfold => by
    rw [List.foldlM_cons] at hfold
    obtain ⟨mid, hadd, hfold⟩ := ok_of_bind hfold
    rw [addRule] at hadd
    obtain ⟨rule, hrule, hadd⟩ := ok_of_bind hadd
    obtain ⟨placement, hplacement, hadd⟩ := ok_of_bind hadd
    obtain rfl := Except.ok.inj hadd
    rw [h.books, h.bookIdToIdx] at hrule
    have hpush : Parsed addrs zoneNameToId books entries bookIdToIdx (pairs ++ [(snap, rule)])
        (st.pushRule rule placement) := h.push (parseRule_ok hbooks hrule) hplacement
    obtain ⟨added, hparsed, hmap, hdefault, hfunctional⟩ := Parsed.foldlM hbooks hpush hfold
    obtain ⟨-, -, -, -, hdefault', hfunctional'⟩ := pushRule_fields st rule placement
    refine ⟨(snap, rule) :: added, ?_, ?_, hdefault.trans hdefault', hfunctional.trans hfunctional'⟩
    · rwa [List.append_assoc, List.singleton_append] at hparsed
    · rw [List.map_cons, hmap]

/-- **An accepted snapshot** gives a state that files every one of its rules. -/
theorem parsePolicyState_ok {defaultPolicy : String} {rules : List PolicyRuleSnapshot}
    {functionalZoneIds : List UInt32} {st : PolicyState}
    (h : parsePolicyState addrs defaultPolicy rules zoneNameToId books functionalZoneIds = .ok st) :
    ∃ entries bookIdToIdx pairs, Parsed addrs zoneNameToId books entries bookIdToIdx pairs st
      ∧ pairs.map (·.1) = rules ∧ parseDefaultPolicy defaultPolicy = .ok st.defaultAction
      ∧ st.functionalZoneIds = functionalZoneIds := by
  rw [parsePolicyState] at h
  obtain ⟨defaultAction, hdefault, h⟩ := ok_of_bind h
  obtain ⟨_, -, h⟩ := ok_of_bind h
  obtain ⟨⟨entries, bookIdToIdx⟩, hbooks, h⟩ := ok_of_bind h
  have hinitial : Parsed addrs zoneNameToId books entries bookIdToIdx []
      (initialState defaultAction functionalZoneIds (entries, bookIdToIdx)) :=
    ⟨rfl, fun _ h => absurd h List.not_mem_nil, fun _ h => absurd h List.not_mem_nil,
      fun _ _ => getD_empty _ _, fun _ => getD_empty _ _, fun _ => getD_empty _ _, rfl, rfl, rfl, rfl, rfl⟩
  obtain ⟨pairs, hparsed, hmap, hdefault', hfunctional⟩ :=
    Parsed.foldlM (BooksOf.of_parse hbooks) hinitial h
  exact ⟨entries, bookIdToIdx, pairs, hparsed, hmap, hdefault' ▸ hdefault, hfunctional⟩

end Parsed

/-! ## Kinds of rules -/

section Kinds

variable {zoneNameToId : String → Option UInt32} {snap : PolicyRuleSnapshot} {placement : Placement}

theorem ruleZone_ok {ruleId zone : String} {id : UInt32} (h : ruleZone zoneNameToId ruleId zone = .ok id) :
    resolvePolicyZoneId zoneNameToId zone = some id := by
  rw [ruleZone] at h
  cases hres : resolvePolicyZoneId zoneNameToId zone with
  | none =>
    rw [hres] at h
    cases h
  | some id' =>
    rw [hres] at h
    rw [Except.ok.inj h]

/-- Where an accepted rule is filed, by its two zone names. -/
theorem placeRule_ok (h : placeRule zoneNameToId snap = .ok placement) :
    (isGlobal snap = true ∧ placement = .global)
      ∨ isGlobal snap = false ∧
        ((snap.fromZone = "any" ∧ snap.toZone = "any" ∧ placement = .bothAny)
          ∨ (∃ toId, snap.fromZone = "any" ∧ snap.toZone ≠ "any"
            ∧ resolvePolicyZoneId zoneNameToId snap.toZone = some toId ∧ placement = .fromAny toId)
          ∨ (∃ fromId, snap.fromZone ≠ "any" ∧ snap.toZone = "any"
            ∧ resolvePolicyZoneId zoneNameToId snap.fromZone = some fromId ∧ placement = .toAny fromId)
          ∨ ∃ fromId toId, snap.fromZone ≠ "any" ∧ snap.toZone ≠ "any"
            ∧ resolvePolicyZoneId zoneNameToId snap.fromZone = some fromId
            ∧ resolvePolicyZoneId zoneNameToId snap.toZone = some toId
            ∧ placement = .zonePair fromId toId) := by
  rw [placeRule, ← isGlobal] at h
  cases hglobal : isGlobal snap with
  | true =>
    rw [hglobal, if_pos rfl] at h
    exact .inl ⟨rfl, (Except.ok.inj h).symm⟩
  | false =>
    rw [hglobal, if_neg Bool.false_ne_true] at h
    refine .inr ⟨rfl, ?_⟩
    by_cases hfrom : snap.fromZone = "any" <;> by_cases hto : snap.toZone = "any" <;>
      simp only [hfrom, hto, decide_true, decide_false] at h
    · exact .inl ⟨hfrom, hto, (Except.ok.inj h).symm⟩
    · obtain ⟨toId, htoId, h⟩ := ok_of_bind h
      exact .inr (.inl ⟨toId, hfrom, hto, ruleZone_ok htoId, (Except.ok.inj h).symm⟩)
    · obtain ⟨fromId, hfromId, h⟩ := ok_of_bind h
      exact .inr (.inr (.inl ⟨fromId, hfrom, hto, ruleZone_ok hfromId, (Except.ok.inj h).symm⟩))
    · obtain ⟨fromId, hfromId, h⟩ := ok_of_bind h
      obtain ⟨toId, htoId, h⟩ := ok_of_bind h
      exact .inr (.inr (.inr ⟨fromId, toId, hfrom, hto, ruleZone_ok hfromId, ruleZone_ok htoId,
        (Except.ok.inj h).symm⟩))

variable (q : PolicyQuery)

theorem zonePair_iff (h : placeRule zoneNameToId snap = .ok placement) :
    decide (placement = .zonePair q.fromId q.toId) = isExactPair zoneNameToId q snap := by
  rcases placeRule_ok h with ⟨hglobal, rfl⟩ | ⟨hglobal, ⟨hfrom, hto, rfl⟩ | ⟨toId, hfrom, hto, hres, rfl⟩
    | ⟨fromId, hfrom, hto, hres, rfl⟩ | ⟨fromId, toId, hfrom, hto, hresf, hrest, rfl⟩⟩
  · simp [isExactPair, hglobal]
  · simp [isExactPair, zoneIs, hfrom]
  · simp [isExactPair, zoneIs, hfrom]
  · simp [isExactPair, zoneIs, hto]
  · simp [isExactPair, zoneIs, hglobal, hfrom, hto, hresf, hrest]

theorem oneAny_iff (h : placeRule zoneNameToId snap = .ok placement) :
    (decide (placement = .fromAny q.toId) || decide (placement = .toAny q.fromId))
      = isOneAny zoneNameToId q snap := by
  rcases placeRule_ok h with ⟨hglobal, rfl⟩ | ⟨hglobal, ⟨hfrom, hto, rfl⟩ | ⟨toId, hfrom, hto, hres, rfl⟩
    | ⟨fromId, hfrom, hto, hres, rfl⟩ | ⟨fromId, toId, hfrom, hto, hresf, hrest, rfl⟩⟩
  · simp [isOneAny, hglobal]
  · simp [isOneAny, zoneIs, hfrom, hto]
  · simp [isOneAny, zoneIs, hglobal, hfrom, hto, hres]
  · simp [isOneAny, zoneIs, hglobal, hfrom, hto, hres]
  · simp [isOneAny, zoneIs, hfrom, hto]

theorem bothAny_iff (h : placeRule zoneNameToId snap = .ok placement) :
    decide (placement = .bothAny) = isBothAny snap := by
  rcases placeRule_ok h with ⟨hglobal, rfl⟩ | ⟨hglobal, ⟨hfrom, hto, rfl⟩ | ⟨toId, hfrom, hto, hres, rfl⟩
    | ⟨fromId, hfrom, hto, hres, rfl⟩ | ⟨fromId, toId, hfrom, hto, hresf, hrest, rfl⟩⟩
  · have hfrom : snap.fromZone = "junos-global" := by
      rw [isGlobal, Bool.and_eq_true, decide_eq_true_eq] at hglobal
      exact hglobal.1
    simp [isBothAny, hfrom]
  · simp [isBothAny, hfrom, hto]
  · simp [isBothAny, hto]
  · simp [isBothAny, hfrom]
  · simp [isBothAny, hfrom]

theorem global_iff (h : placeRule zoneNameToId snap = .ok placement) :
    decide (placement = .global) = isGlobal snap := by
  rcases placeRule_ok h with ⟨hglobal, rfl⟩ | ⟨hglobal, ⟨-, -, rfl⟩ | ⟨toId, -, -, -, rfl⟩
    | ⟨fromId, -, -, -, rfl⟩ | ⟨fromId, toId, -, -, -, -, rfl⟩⟩ <;> simp [hglobal]

end Kinds

/-! ## A walk is a search -/

/-- The verdict of a result. -/
def PolicyEvaluationResult.verdict (result : PolicyEvaluationResult) : Verdict :=
  (result.action, result.policyId, result.inactivityTimeout)

/-- The verdict of a rule that is on and matches. -/
def verdictAt (st : PolicyState) (q : PolicyQuery) (expired : Bool) (rule : PolicyRule) : Option Verdict :=
  if live st q expired rule then (appMatch q rule).map fun timeout => (rule.action, rule.policyId, timeout)
  else none

section Search

variable {st : PolicyState} {q : PolicyQuery}

/-- A packet with its transport header skips no deny: the first rule that matches decides. -/
theorem walkRules_whole (st : PolicyState) (expired : Bool) (hl4 : q.l4Present = true) : ∀ l : List (ℕ × PolicyRule),
    (walkRules st q expired none l = .ok none ∧ (l.map (·.2)).findSome? (verdictAt st q expired) = none)
      ∨ ∃ result, walkRules st q expired none l = .error result
        ∧ (l.map (·.2)).findSome? (verdictAt st q expired) = some result.verdict
  | [] => .inl ⟨rfl, rfl⟩
  | (idx, rule) :: rest => by
    rw [walkRules, List.map_cons, List.findSome?_cons, verdictAt]
    cases live st q expired rule with
    | false => exact walkRules_whole st expired hl4 rest
    | true =>
      cases appMatch q rule with
      | some timeout => exact .inr ⟨resultOf idx rule timeout, rfl, rfl⟩
      | none =>
        simp only [if_true, hl4, Bool.not_true, Bool.false_and, Bool.false_eq_true, if_false, Option.map_none]
        exact walkRules_whole st expired hl4 rest

/-- The verdict of an evaluation, over the rules of the walk. -/
theorem evaluate_verdict (hl4 : q.l4Present = true) (hegress : q.egressResolved = true) :
    (evaluatePolicyResultCounted st q).verdict
      = if st.functionalZoneIds.contains q.fromId || st.functionalZoneIds.contains q.toId || q.fromId = 0
          || q.toId = 0 then (.deny, unattributedPolicyId, none)
        else (((rulesAt st (visitOrder st q)).map (·.2)).findSome?
          (verdictAt st q (st.schedulerRulesExpiredAt q.nowNs))).getD
          (st.defaultAction, defaultPolicySentinelId, none) := by
  rw [evaluatePolicyResultCounted, evaluateTiers_eq]
  cases hfunctional : st.functionalZoneIds.contains q.fromId || st.functionalZoneIds.contains q.toId with
  | true => rfl
  | false =>
    simp only [Bool.false_eq_true, if_false, Bool.false_or, hegress, Bool.true_and, Bool.or_eq_true,
      decide_eq_true_eq]
    by_cases hzones : q.fromId = 0 ∨ q.toId = 0
    · -- a closed gate: nothing was visited
      have horder : visitOrder st q = [] := by
        rw [visitOrder, if_neg]
        rcases hzones with hzero | hzero <;> simp [PolicyQuery.unresolvedEgress, hegress, hzero]
      rw [if_pos hzones, horder]
      change (if q.fromId = 0 then PolicyEvaluationResult.unattributed
        else if q.toId = 0 then .unattributed else _).verdict = _
      split_ifs with hfrom hto
      · rfl
      · rfl
      · exact absurd hzones (not_or.mpr ⟨hfrom, hto⟩)
    · rw [if_neg hzones]
      rw [not_or] at hzones
      rcases walkRules_whole st (st.schedulerRulesExpiredAt q.nowNs) hl4
        (rulesAt st (visitOrder st q)) with ⟨hwalk, hfind⟩ | ⟨result, hwalk, hfind⟩
      · rw [hwalk, hfind]
        simp only [hzones.1, hzones.2, if_false]
        rfl
      · rw [hwalk, hfind]
        rfl

theorem rulesAt_map_snd (indices : List ℕ) :
    (rulesAt st indices).map (·.2) = indices.filterMap fun i => st.rules[i]? := by
  rw [rulesAt, List.map_filterMap]
  refine List.filterMap_congr fun i _ => ?_
  cases st.rules[i]? <;> rfl

theorem filterMap_filter_any (scope : PolicyRule → Bool) (indices : List ℕ) :
    (indices.filter fun i => (st.rules[i]?).any scope).filterMap (fun i => st.rules[i]?)
      = (indices.filterMap fun i => st.rules[i]?).filter scope := by
  induction indices with
  | nil => rfl
  | cons i indices ih =>
    rw [List.filter_cons]
    cases hrule : st.rules[i]? with
    | none =>
      rw [Option.any_none, if_neg Bool.false_ne_true, List.filterMap_cons_none hrule]
      exact ih
    | some rule =>
      rw [Option.any_some, List.filterMap_cons_some hrule, List.filter_cons]
      split_ifs
      · rw [List.filterMap_cons_some hrule, ih]
      · exact ih

end Search

/-! ## The specification is met -/

section Refinement

variable {addrs : AddrParsers} {zoneNameToId : String → Option UInt32} {books : List AddressBookSnapshot}
  {entries : List BookEntry} {bookIdToIdx : Table UInt32 ℕ} {pairs : List RulePair} {st : PolicyState}

/-- What stands at the positions of a kind. -/
theorem Parsed.rules_at (h : Parsed addrs zoneNameToId books entries bookIdToIdx pairs st)
    (p : RulePair → Bool) :
    (pairs.findIdxs p).filterMap (fun i => st.rules[i]?) = (pairs.filter p).map (·.2) := by
  have hpositions : (pairs.findIdxs p).filterMap (fun i => pairs[i]?) = pairs.filter p :=
    filterMap_findIdxs p pairs []
  rw [← hpositions, List.map_filterMap, h.rules]
  simp only [List.getElem?_map]

/-- The pairs whose snapshots a packet tries. -/
def triedPairs (zoneNameToId : String → Option UInt32) (q : PolicyQuery) (pairs : List RulePair) :
    List RulePair :=
  pairs.filter (fun pair => isExactPair zoneNameToId q pair.1)
    ++ pairs.filter (fun pair => isOneAny zoneNameToId q pair.1)
    ++ pairs.filter (fun pair => isBothAny pair.1)
    ++ pairs.filter (fun pair => isGlobalInScope zoneNameToId q pair.1)

theorem triedPairs_map_fst (q : PolicyQuery) :
    (triedPairs zoneNameToId q pairs).map (·.1) = tried zoneNameToId q (pairs.map (·.1)) := by
  simp only [triedPairs, tried, List.map_append, List.filter_map]
  rfl

/-- The walk visits the rules of the specification, in its order. -/
theorem Parsed.visited (h : Parsed addrs zoneNameToId books entries bookIdToIdx pairs st) {q : PolicyQuery}
    (hegress : q.egressResolved = true) (hfrom : q.fromId ≠ 0) (hto : q.toId ≠ 0) :
    (rulesAt st (visitOrder st q)).map (·.2) = (triedPairs zoneNameToId q pairs).map (·.2) := by
  have hresolved : q.unresolvedEgress = false := by simp [PolicyQuery.unresolvedEgress, hegress]
  have hkind : ∀ {p r : RulePair → Bool}, (∀ pair ∈ pairs, p pair = r pair) →
      (pairs.findIdxs p).filterMap (fun i => st.rules[i]?) = (pairs.filter r).map (·.2) := by
    intro p r hpr
    rw [h.rules_at, List.filter_congr hpr]
  have hexact : (pairs.findIdxs (filedAt zoneNameToId (.zonePair q.fromId q.toId))).filterMap
      (fun i => st.rules[i]?) = (pairs.filter fun pair => isExactPair zoneNameToId q pair.1).map (·.2) := by
    refine hkind fun pair hpair => ?_
    obtain ⟨placement, hplacement⟩ := h.filed pair hpair
    rw [filedAt_of_ok hplacement, zonePair_iff q hplacement]
  have hone : (pairs.findIdxs fun pair => filedAt zoneNameToId (.fromAny q.toId) pair
        || filedAt zoneNameToId (.toAny q.fromId) pair).filterMap (fun i => st.rules[i]?)
      = (pairs.filter fun pair => isOneAny zoneNameToId q pair.1).map (·.2) := by
    refine hkind fun pair hpair => ?_
    obtain ⟨placement, hplacement⟩ := h.filed pair hpair
    rw [filedAt_of_ok hplacement, filedAt_of_ok hplacement, oneAny_iff q hplacement]
  have hboth : (pairs.findIdxs (filedAt zoneNameToId .bothAny)).filterMap (fun i => st.rules[i]?)
      = (pairs.filter fun pair => isBothAny pair.1).map (·.2) := by
    refine hkind fun pair hpair => ?_
    obtain ⟨placement, hplacement⟩ := h.filed pair hpair
    rw [filedAt_of_ok hplacement, bothAny_iff hplacement]
  have hglobal : ((pairs.findIdxs (filedAt zoneNameToId .global)).filter (globalInScope st q)).filterMap
      (fun i => st.rules[i]?) = (pairs.filter fun pair => isGlobalInScope zoneNameToId q pair.1).map (·.2) := by
    have hscope : globalInScope st q = fun i => (st.rules[i]?).any fun rule =>
        rule.globalFromZone.matches q.fromId && rule.globalToZone.matches q.toId := by
      funext i
      simp only [globalInScope, hresolved, Bool.false_eq_true, if_false]
    rw [hscope, filterMap_filter_any, h.rules_at, List.filter_map, List.filter_filter]
    congr 1
    refine List.filter_congr fun pair hpair => ?_
    obtain ⟨placement, hplacement⟩ := h.filed pair hpair
    have hrule := h.ruleOf pair hpair
    rw [filedAt_of_ok hplacement, global_iff hplacement, isGlobalInScope, Function.comp_apply, hrule.fromScope,
      hrule.toScope, Bool.and_comm, Bool.and_assoc]
  have hdisjoint : ∀ pair, filedAt zoneNameToId (.fromAny q.toId) pair = true →
      filedAt zoneNameToId (.toAny q.fromId) pair = false := by
    intro pair hfiled
    rw [filedAt, decide_eq_true_eq] at hfiled
    rw [filedAt, hfiled]
    simp
  rw [rulesAt_map_snd, visitOrder, if_pos (by simp [hfrom, hto]), if_pos hto, hresolved,
    if_neg Bool.false_ne_true, if_neg Bool.false_ne_true, List.append_nil, h.zonePair, h.fromAny, h.toAny,
    h.bothAny, h.global, mergeTiers_findIdxs _ _ hdisjoint]
  simp only [List.filterMap_append, hexact, hone, hboth, hglobal, triedPairs, List.map_append]

/-- The rule is on exactly when the snapshot says so; a rule with a scheduler has turned the
lease on for the whole state. -/
theorem Parsed.off_eq (h : Parsed addrs zoneNameToId books entries bookIdToIdx pairs st) {pair : RulePair}
    (hpair : pair ∈ pairs) (nowNs : UInt64) :
    (!pair.2.off (st.schedulerRulesExpiredAt nowNs))
      = eligible (st.schedulerLease.expiredAt nowNs) (actionOf pair.1) pair.1 := by
  have hrule := h.ruleOf pair hpair
  have hunknown : (st.schedulerRulesExpiredAt nowNs && !pair.2.schedulerName.isEmpty)
      = (st.schedulerLease.expiredAt nowNs && !pair.1.schedulerName.isEmpty) := by
    rw [PolicyState.schedulerRulesExpiredAt, h.scheduled, hrule.schedulerName]
    cases hname : pair.1.schedulerName.isEmpty with
    | true => simp
    | false =>
      have hany : (pairs.any fun pair => !pair.1.schedulerName.isEmpty) = true :=
        List.any_eq_true.mpr ⟨pair, hpair, by rw [hname]; rfl⟩
      rw [hany, Bool.true_and]
  rw [PolicyRule.off, eligible, hunknown, hrule.action, hrule.inactive]
  cases st.schedulerLease.expiredAt nowNs && !pair.1.schedulerName.isEmpty <;> simp

theorem Parsed.verdict_eq (h : Parsed addrs zoneNameToId books entries bookIdToIdx pairs st) {q : PolicyQuery}
    (hl4 : q.l4Present = true) {pair : RulePair} (hpair : pair ∈ pairs) :
    verdictAt st q (st.schedulerRulesExpiredAt q.nowNs) pair.2
      = ruleVerdict q (addressesHold addrs books) actionOf (st.schedulerLease.expiredAt q.nowNs) pair.1 := by
  have hrule := h.ruleOf pair hpair
  rw [verdictAt, live, h.off_eq hpair, hrule.addresses st h.books, hrule.application q hl4, hrule.action,
    hrule.policyId, ruleVerdict]

/-- The search over the rules is the search over their snapshots. -/
theorem Parsed.search_eq (h : Parsed addrs zoneNameToId books entries bookIdToIdx pairs st) {q : PolicyQuery}
    (hl4 : q.l4Present = true) {l : List RulePair} (hl : ∀ pair ∈ l, pair ∈ pairs) :
    (l.map (·.2)).findSome? (verdictAt st q (st.schedulerRulesExpiredAt q.nowNs))
      = (l.map (·.1)).findSome? (ruleVerdict q (addressesHold addrs books) actionOf
          (st.schedulerLease.expiredAt q.nowNs)) := by
  induction l with
  | nil => rfl
  | cons pair l ih =>
    rw [List.map_cons, List.map_cons, List.findSome?_cons, List.findSome?_cons,
      h.verdict_eq hl4 (hl pair List.mem_cons_self), ih fun p hp => hl p (List.mem_cons_of_mem _ hp)]

theorem triedPairs_subset {q : PolicyQuery} : ∀ pair ∈ triedPairs zoneNameToId q pairs, pair ∈ pairs := by
  intro pair hpair
  simp only [triedPairs, List.mem_append, List.mem_filter] at hpair
  rcases hpair with ((hpair | hpair) | hpair) | hpair <;> exact hpair.1

end Refinement

/-- The action of the configuration's default; an empty text is a deny. -/
def defaultActionOf (defaultPolicy : String) : PolicyAction := (parseAction defaultPolicy).getD .deny

theorem parseDefaultPolicy_ok {defaultPolicy : String} {action : PolicyAction}
    (h : parseDefaultPolicy defaultPolicy = .ok action) : action = defaultActionOf defaultPolicy := by
  rw [parseDefaultPolicy] at h
  rw [defaultActionOf]
  split_ifs at h with hempty
  · obtain rfl := Except.ok.inj h
    rw [String.isEmpty_iff.mp hempty]
    rfl
  · cases hparse : parseAction defaultPolicy with
    | none =>
      rw [hparse] at h
      cases h
    | some action' =>
      rw [hparse] at h
      exact (Except.ok.inj h).symm

/-- **Evaluation is the first match.** For every accepted snapshot, every lease of the scheduler
and every packet with its transport header and a resolved egress, the verdict is the one of
the specification. -/
theorem evaluate_eq_firstMatch {addrs : AddrParsers} {defaultPolicy : String}
    {rules : List PolicyRuleSnapshot} {zoneNameToId : String → Option UInt32}
    {books : List AddressBookSnapshot} {functionalZoneIds : List UInt32} {st : PolicyState}
    (hparse : parsePolicyState addrs defaultPolicy rules zoneNameToId books functionalZoneIds = .ok st)
    (lease : SchedulerHeartbeatLease) {q : PolicyQuery} (hl4 : q.l4Present = true)
    (hegress : q.egressResolved = true) :
    (evaluatePolicyResultCounted { st with schedulerLease := lease } q).verdict
      = firstMatch zoneNameToId q (addressesHold addrs books) actionOf (defaultActionOf defaultPolicy)
          functionalZoneIds (lease.expiredAt q.nowNs) rules := by
  obtain ⟨entries, bookIdToIdx, pairs, hst, rfl, hdefault, rfl⟩ := parsePolicyState_ok hparse
  -- a new lease changes nothing the parser set up
  have hparsed : Parsed addrs zoneNameToId books entries bookIdToIdx pairs
      { st with schedulerLease := lease } :=
    ⟨hst.rules, hst.ruleOf, hst.filed, hst.zonePair, hst.fromAny, hst.toAny, hst.bothAny, hst.global,
      hst.books, hst.bookIdToIdx, hst.scheduled⟩
  rw [evaluate_verdict hl4 hegress, firstMatch]
  by_cases hgate : (st.functionalZoneIds.contains q.fromId || st.functionalZoneIds.contains q.toId
      || decide (q.fromId = 0) || decide (q.toId = 0)) = true
  · rw [if_pos hgate, if_pos hgate]
  · rw [if_neg hgate, if_neg hgate]
    simp only [Bool.or_eq_true, decide_eq_true_eq, not_or] at hgate
    rw [hparsed.visited hegress hgate.1.2 hgate.2, hparsed.search_eq hl4 triedPairs_subset,
      triedPairs_map_fst, parseDefaultPolicy_ok hdefault]

/-- One text of an address. -/
def docPrefix : AddrParsers where
  ipNet s := if s = "2001:db8::/32" then some (.v6 0x20010DB8000000000000000000000000 32 (by decide)) else none
  ipv4Addr _ := none
  ipv6Addr _ := none

/-- A permit with an old-shaped source of one IPv6 prefix. -/
def docRule : PolicyRuleSnapshot :=
  { zoneRule "doc" "trust" "untrust" "permit" [⟨"http", "tcp", "", "http", none, none, some 60⟩] with
    policyId := 7
    sourceAddresses := ["2001:db8::/32"] }

/-- The state of that snapshot. -/
def docPolicy : Except SnapshotIntegrityError PolicyState :=
  parsePolicyState docPrefix "deny" [docRule] twoZones [] []

/-- A web request. -/
def webPacket : PolicyQuery := (packetOf 6).whole 6 1024 80 none

theorem evaluate_eq_firstMatch_docPolicy :
    ∃ st, docPolicy = .ok st
      ∧ (evaluatePolicyResultCounted { st with schedulerLease := ⟨0, 0⟩ } webPacket).verdict
        = (.permit, 7, some 60) := by
  obtain ⟨st, hst, -⟩ := exists_ok (e := docPolicy) (p := fun _ => True) (by decide +kernel)
    (fun _ _ => trivial)
  refine ⟨st, hst, ?_⟩
  rw [evaluate_eq_firstMatch hst ⟨0, 0⟩ rfl rfl]
  decide +kernel

/-- The plain reading of a side: the union of the prefixes it lists. -/
def plainSide (addrs : AddrParsers) (books : List AddressBookSnapshot) (bookIds : List UInt32)
    (literals addresses : List String) (excluded : Bool) : SideSpec :=
  let tokens := (sideTokens bookIds literals addresses).1
  { v4 := tokens.filterMap (tokenPrefix (isAnyV4 addrs) (netV4 addrs))
      ++ (listedBooks books bookIds).flatMap (bookV4 addrs)
    v6 := tokens.filterMap (tokenPrefix (isAnyV6 addrs) (netV6 addrs))
      ++ (listedBooks books bookIds).flatMap (bookV6 addrs)
    excluded := excluded }

/-- The plain reading of the addresses of a rule. -/
def plainAddressesHold (addrs : AddrParsers) (books : List AddressBookSnapshot) (snap : PolicyRuleSnapshot)
    (srcIp dstIp : IpAddr) : Bool :=
  (plainSide addrs books snap.sourceBookIds snap.sourceLiterals snap.sourceAddresses
      snap.sourceAddressExcluded).holds srcIp
    && (plainSide addrs books snap.destinationBookIds snap.destinationLiterals snap.destinationAddresses
      snap.destinationAddressExcluded).holds dstIp

/-- An IPv4 packet is permitted by a rule whose source lists one IPv6 prefix. -/
theorem evaluate_ne_plain_firstMatch :
    ∃ st, docPolicy = .ok st ∧ webPacket.l4Present = true ∧ webPacket.egressResolved = true
      ∧ (evaluatePolicyResultCounted st webPacket).verdict
        ≠ firstMatch twoZones webPacket (plainAddressesHold docPrefix [])
            (fun snap => (parseAction snap.action).getD .deny) .deny [] false [docRule] := by
  have hverdict : ∀ st ∈ docPolicy.toOption, webPacket.l4Present = true ∧ webPacket.egressResolved = true
      ∧ (evaluatePolicyResultCounted st webPacket).verdict
        ≠ firstMatch twoZones webPacket (plainAddressesHold docPrefix [])
            (fun snap => (parseAction snap.action).getD .deny) .deny [] false [docRule] := by decide +kernel
  exact exists_ok (by decide +kernel) hverdict

end Xpf.Policies
