/-
`Nptv6Order.lean` -- the order of NPTv6 rules.

`try_from_snapshots` reads its list from the front and stops at the first bad rule or
overlap, and the lookups take the first rule that matches. Neither makes the order count:
a list is accepted exactly when each of its rules is good in itself and every two are
apart (`tryFromSnapshots_ok_iff`), and of rules that are apart at most one matches.
-/
import Xpf.Nptv6
import Mathlib.Data.List.Perm.Basic

set_option autoImplicit false

namespace Xpf.Nptv6

/-! ## What is accepted -/

/-- The rule a snapshot stands for, if it is good in itself. -/
def ruleOf (snap : Nptv6RuleSnapshot) : Option Nptv6Rule :=
  match parsePrefix snap.internalPrefix, parsePrefix snap.externalPrefix with
  | some (internalPrefix, iwords), some (externalPrefix, ewords) =>
    if iwords = ewords then
      some
        { fromZone := snap.fromZone
          internalPrefix := internalPrefix
          externalPrefix := externalPrefix
          adjustment := computeAdjustment internalPrefix externalPrefix iwords
          prefixWords := iwords }
    else none
  | _, _ => none

/-- Two rules are apart in both directions. -/
def ApartBoth (r r' : Nptv6Rule) : Prop :=
  Apart Nptv6Rule.internalPrefix r r' ∧ Apart Nptv6Rule.externalPrefix r r'

theorem ApartBoth.symm {r r' : Nptv6Rule} (h : ApartBoth r r') : ApartBoth r' r :=
  ⟨h.1.symm, h.2.symm⟩

/-- An overlap is a rule seen that is not apart from the candidate. -/
theorem findOverlap_none_iff {key : Nptv6Rule → PrefixWords} {rules : List Nptv6Rule}
    {seen : List (PrefixWords × ℕ × String × String)} (hseen : SeenOf key rules seen) (r : Nptv6Rule) :
    findOverlap seen (key r) r.prefixWords r.fromZone = none ↔ ∀ r' ∈ rules, Apart key r' r := by
  refine ⟨apart_of_findOverlap hseen, fun hapart => ?_⟩
  rw [findOverlap, Option.map_eq_none_iff, List.find?_eq_none]
  rintro ⟨p, w, name, z⟩ hs hover
  have hmem : (p, w, z) ∈ rules.map fun r => (key r, r.prefixWords, r.fromZone) := by
    rw [← show seen.map (fun s => (s.1, s.2.1, s.2.2.2)) = _ from hseen]
    exact List.mem_map.mpr ⟨_, hs, rfl⟩
  obtain ⟨r', hr', heq⟩ := List.mem_map.mp hmem
  obtain ⟨rfl, rfl, rfl⟩ : key r' = p ∧ r'.prefixWords = w ∧ r'.fromZone = z := by
    simpa only [Prod.mk.injEq] using heq
  obtain ⟨hsame, hzones⟩ := Bool.and_eq_true_iff.mp hover
  rcases (hapart r' hr').symm with hz | ⟨i, hi, hne⟩
  · rw [hz] at hzones
    cases hzones
  · exact hne (of_decide_eq_true hsame i hi)

/-- **One round accepts** a good rule that is apart from every rule so far. -/
theorem addSnapshot_ok_iff {b : Build} (hinv : b.Inv) (snap : Nptv6RuleSnapshot) (r : Nptv6Rule) :
    (∃ b', addSnapshot b snap = .ok b' ∧ b'.state.inbound = b.state.inbound ++ [r])
      ↔ ruleOf snap = some r ∧ ∀ r' ∈ b.state.inbound, ApartBoth r' r := by
  rw [ruleOf, addSnapshot]
  cases hi : parsePrefix snap.internalPrefix with
  | none => simp
  | some ip =>
    cases he : parsePrefix snap.externalPrefix with
    | none => simp
    | some ep =>
      obtain ⟨internal, iwords⟩ := ip
      obtain ⟨external, ewords⟩ := ep
      dsimp only
      by_cases hlen : iwords = ewords
      · subst hlen
        rw [if_neg (by simp), if_pos rfl]
        -- the rule of this snapshot, against the two lists of prefixes seen
        set rule : Nptv6Rule := ⟨snap.fromZone, internal, external,
          computeAdjustment internal external iwords, iwords⟩ with hrule
        have hint := findOverlap_none_iff hinv.internalSeen rule
        have hext := findOverlap_none_iff hinv.externalSeen rule
        constructor
        · rintro ⟨b', hb', hrules⟩
          split at hb'
          · cases hb'
          rename_i hover
          split at hb'
          · cases hb'
          rename_i hover'
          obtain rfl := Except.ok.inj hb'
          obtain rfl : rule = r := List.singleton_inj.mp (List.append_cancel_left hrules)
          exact ⟨rfl, fun r' hr' => ⟨hint.mp hover r' hr', hext.mp hover' r' hr'⟩⟩
        · rintro ⟨hr, hapart⟩
          obtain rfl := Option.some.inj hr
          rw [hint.mpr fun r' hr' => (hapart r' hr').1, hext.mpr fun r' hr' => (hapart r' hr').2]
          exact ⟨_, rfl, rfl⟩
      · rw [if_pos hlen, if_neg hlen]
        simp

/-- An accepting round adds one rule. -/
theorem addSnapshot_inbound {b b' : Build} {snap : Nptv6RuleSnapshot}
    (h : addSnapshot b snap = .ok b') : ∃ r, b'.state.inbound = b.state.inbound ++ [r] := by
  rw [addSnapshot] at h
  split at h
  · cases h
  split at h
  · cases h
  split_ifs at h
  split at h
  · cases h
  split at h
  · cases h
  obtain rfl := Except.ok.inj h
  exact ⟨_, rfl⟩

theorem foldlM_inbound (snaps : List Nptv6RuleSnapshot) : ∀ {b b' : Build},
    snaps.foldlM addSnapshot b = .ok b' → ∃ rules, b'.state.inbound = b.state.inbound ++ rules := by
  induction snaps with
  | nil =>
    intro b b' h
    obtain rfl := Except.ok.inj h
    exact ⟨[], (List.append_nil _).symm⟩
  | cons snap rest ih =>
    intro b b' h
    rw [List.foldlM_cons] at h
    cases hs : addSnapshot b snap with
    | error e => rw [hs] at h; cases h
    | ok b1 =>
      rw [hs] at h
      obtain ⟨r, hr⟩ := addSnapshot_inbound hs
      obtain ⟨rules, hrules⟩ := ih h
      exact ⟨r :: rules, by rw [hrules, hr, List.append_assoc, List.singleton_append]⟩

/-- **The loop accepts** good rules that are apart from each other and from those so far. -/
theorem foldlM_ok_iff (snaps : List Nptv6RuleSnapshot) : ∀ {b : Build}, b.Inv → ∀ rules,
    (∃ b', snaps.foldlM addSnapshot b = .ok b' ∧ b'.state.inbound = b.state.inbound ++ rules)
      ↔ snaps.map ruleOf = rules.map some ∧ rules.Pairwise ApartBoth
        ∧ ∀ r' ∈ b.state.inbound, ∀ r ∈ rules, ApartBoth r' r := by
  induction snaps with
  | nil =>
    intro b hinv rules
    constructor
    · rintro ⟨b', hb', hrules⟩
      obtain rfl := Except.ok.inj hb'
      obtain rfl : rules = [] := List.append_right_eq_self.mp hrules.symm
      exact ⟨rfl, List.Pairwise.nil, fun r' _ r hr => absurd hr List.not_mem_nil⟩
    · rintro ⟨hmap, -⟩
      obtain rfl : rules = [] := List.map_eq_nil_iff.mp hmap.symm
      exact ⟨b, rfl, (List.append_nil _).symm⟩
  | cons snap rest ih =>
    intro b hinv rules
    rw [List.foldlM_cons]
    constructor
    · rintro ⟨b', hb', hrules⟩
      cases hs : addSnapshot b snap with
      | error e => rw [hs] at hb'; cases hb'
      | ok b1 =>
        rw [hs] at hb'
        obtain ⟨r, hr⟩ := addSnapshot_inbound hs
        obtain ⟨hrule, hapart⟩ := (addSnapshot_ok_iff hinv snap r).mp ⟨b1, hs, hr⟩
        obtain ⟨tail, htail⟩ := foldlM_inbound rest hb'
        obtain rfl : r :: tail = rules := by
          rw [hr, List.append_assoc, List.singleton_append] at htail
          exact List.append_cancel_left (htail.symm.trans hrules)
        obtain ⟨hmap, hpair, hseen⟩ := (ih (addSnapshot_spec hinv hs) tail).mp ⟨b', hb', htail⟩
        rw [hr] at hseen
        refine ⟨by rw [List.map_cons, List.map_cons, hrule, hmap],
          List.pairwise_cons.mpr ⟨?_, hpair⟩, ?_⟩
        · exact hseen r (List.mem_append_right _ (List.mem_singleton_self r))
        · intro r' hr' q hq
          rcases List.mem_cons.mp hq with rfl | hq
          · exact hapart r' hr'
          · exact hseen r' (List.mem_append_left _ hr') q hq
    · rintro ⟨hmap, hpair, hseen⟩
      cases rules with
      | nil => cases hmap
      | cons r tail =>
        obtain ⟨hrule, hmap⟩ := List.cons.inj hmap
        obtain ⟨hr, hpair⟩ := List.pairwise_cons.mp hpair
        obtain ⟨b1, hs, hb1⟩ := (addSnapshot_ok_iff hinv snap r).mpr
          ⟨hrule, fun r' hr' => hseen r' hr' r List.mem_cons_self⟩
        obtain ⟨b', hb', hrules⟩ := (ih (addSnapshot_spec hinv hs) tail).mpr ⟨hmap, hpair, by
          rw [hb1]
          intro r' hr' q hq
          rcases List.mem_append.mp hr' with hr' | hr'
          · exact hseen r' hr' q (List.mem_cons_of_mem _ hq)
          · rw [List.mem_singleton.mp hr']
            exact hr q hq⟩
        refine ⟨b', by rw [hs]; exact hb', ?_⟩
        rw [hrules, hb1, List.append_assoc, List.singleton_append]

/-- **What is accepted**: rules that are good in themselves and pairwise apart. -/
theorem tryFromSnapshots_ok_iff (snaps : List Nptv6RuleSnapshot) (st : Nptv6State) :
    tryFromSnapshots snaps = .ok st
      ↔ ∃ rules, snaps.map ruleOf = rules.map some ∧ rules.Pairwise ApartBoth
        ∧ st = ⟨rules, rules⟩ := by
  have hempty : (⟨⟨[], []⟩, [], []⟩ : Build).Inv :=
    ⟨⟨rfl, by simp, List.Pairwise.nil, List.Pairwise.nil⟩, rfl, rfl⟩
  constructor
  · intro h
    have hwf := tryFromSnapshots_spec h
    rw [tryFromSnapshots] at h
    cases hb : snaps.foldlM addSnapshot ⟨⟨[], []⟩, [], []⟩ with
    | error e => rw [hb] at h; cases h
    | ok b =>
      rw [hb] at h
      obtain rfl := Except.ok.inj h
      obtain ⟨hmap, hpair, -⟩ := (foldlM_ok_iff snaps hempty b.state.inbound).mp ⟨b, hb, rfl⟩
      refine ⟨b.state.inbound, hmap, hpair, ?_⟩
      rw [show b.state = ⟨b.state.inbound, b.state.outbound⟩ from rfl, hwf.same]
  · rintro ⟨rules, hmap, hpair, rfl⟩
    obtain ⟨b, hb, hrules⟩ := (foldlM_ok_iff snaps hempty rules).mpr
      ⟨hmap, hpair, fun r' hr' => absurd hr' List.not_mem_nil⟩
    have hwf := (foldlM_addSnapshot_spec snaps hempty hb).wf
    rw [tryFromSnapshots, hb]
    refine congrArg Except.ok ?_
    rw [show b.state = ⟨b.state.inbound, b.state.outbound⟩ from rfl, hwf.same, hrules]
    rfl

/-! ## The lookups -/

/-- Of rules that are apart at most one matches, so a lookup finds it in any order. -/
theorem find_perm {key : Nptv6Rule → PrefixWords} {zone : String} {words : Words}
    {rules rules' : List Nptv6Rule} (hperm : rules.Perm rules') (hsep : Separated key rules') :
    rules.find? (fun r => r.zoneMatches zone && prefixMatches words (key r) r.prefixWords)
      = rules'.find? (fun r => r.zoneMatches zone && prefixMatches words (key r) r.prefixWords) := by
  cases hfind : rules.find?
      (fun r => r.zoneMatches zone && prefixMatches words (key r) r.prefixWords) with
  | none =>
    refine (List.find?_eq_none.mpr fun r hr => ?_).symm
    exact List.find?_eq_none.mp hfind r (hperm.mem_iff.mpr hr)
  | some r =>
    have hmem := hperm.mem_iff.mp (List.mem_of_find?_eq_some hfind)
    have hmatch := List.find?_some hfind
    obtain ⟨hz, hm⟩ := Bool.and_eq_true_iff.mp hmatch
    exact (find_of_separated hsep hmem hz hm).symm

/-- A reordered list of snapshots stands for the reordered rules. -/
theorem rules_perm {snaps snaps' : List Nptv6RuleSnapshot} (hperm : snaps.Perm snaps')
    {rules : List Nptv6Rule} (hmap : snaps.map ruleOf = rules.map some) :
    ∃ rules', snaps'.map ruleOf = rules'.map some ∧ rules.Perm rules' := by
  have hsnaps : (snaps'.map ruleOf).Perm (rules.map some) := hmap ▸ (hperm.map ruleOf).symm
  have hcomp : Relation.Comp (fun a b => a = List.map some b) List.Perm (snaps'.map ruleOf) rules := by
    rw [List.eq_map_comp_perm]
    exact hsnaps
  obtain ⟨rules', hmap', hrules⟩ := hcomp
  exact ⟨rules', hmap', hrules.symm⟩

theorem tryFromSnapshots_perm {snaps snaps' : List Nptv6RuleSnapshot} (hperm : snaps.Perm snaps')
    {st : Nptv6State} (h : tryFromSnapshots snaps = .ok st) :
    ∃ st', tryFromSnapshots snaps' = .ok st' ∧ st.inbound.Perm st'.inbound := by
  obtain ⟨rules, hmap, hpair, rfl⟩ := (tryFromSnapshots_ok_iff snaps st).mp h
  obtain ⟨rules', hmap', hrules⟩ := rules_perm hperm hmap
  have hpair' : rules'.Pairwise ApartBoth := (hrules.pairwise_iff ApartBoth.symm).mp hpair
  exact ⟨⟨rules', rules'⟩, (tryFromSnapshots_ok_iff snaps' _).mpr ⟨rules', hmap', hpair', rfl⟩, hrules⟩

/-- **The order of the rules does not matter**: a reordered list is accepted if the list
is, and both translate every address in every zone alike. -/
theorem tryFromSnapshots_order {snaps snaps' : List Nptv6RuleSnapshot} (hperm : snaps.Perm snaps') :
    ((∃ st, tryFromSnapshots snaps = .ok st) ↔ ∃ st', tryFromSnapshots snaps' = .ok st')
      ∧ ∀ st st', tryFromSnapshots snaps = .ok st → tryFromSnapshots snaps' = .ok st' →
        ∀ addr zone, st.translateInboundResult addr zone = st'.translateInboundResult addr zone
          ∧ st.translateOutboundResult addr zone = st'.translateOutboundResult addr zone := by
  refine ⟨⟨?_, ?_⟩, ?_⟩
  · rintro ⟨st, h⟩
    obtain ⟨st', h', -⟩ := tryFromSnapshots_perm hperm h
    exact ⟨st', h'⟩
  · rintro ⟨st', h'⟩
    obtain ⟨st, h, -⟩ := tryFromSnapshots_perm hperm.symm h'
    exact ⟨st, h⟩
  · intro st st' h h' addr zone
    obtain ⟨st'', h'', hrules⟩ := tryFromSnapshots_perm hperm h
    obtain rfl := Except.ok.inj (h''.symm.trans h')
    have hwf := tryFromSnapshots_spec h
    have hwf' := tryFromSnapshots_spec h'
    constructor
    · rw [Nptv6State.translateInboundResult, Nptv6State.translateInboundResult]
      rw [find_perm hrules hwf'.external]
    · rw [Nptv6State.translateOutboundResult, Nptv6State.translateOutboundResult]
      rw [hwf.same, hwf'.same, find_perm hrules hwf'.internal]

/-- A /48 rule and a /64 rule of two zones, with the same internal prefix. -/
def splitHorizon : List Nptv6RuleSnapshot :=
  [⟨"r1", "trust", "fd00:5:6::/48", "2001:db8:1::/48"⟩,
    ⟨"r2", "dmz", "fd00:5:6::/64", "2001:db8:1:2::/64"⟩]

theorem tryFromSnapshots_order_splitHorizon :
    ∃ st st', tryFromSnapshots splitHorizon = .ok st
      ∧ tryFromSnapshots splitHorizon.reverse = .ok st'
      ∧ st.translateOutboundResult insideHost "trust" = st'.translateOutboundResult insideHost "trust" := by
  have hok : (match tryFromSnapshots splitHorizon with
      | .ok _ => true
      | .error _ => false) = true := by decide +kernel
  have horder := tryFromSnapshots_order (List.reverse_perm splitHorizon).symm
  cases h : tryFromSnapshots splitHorizon with
  | error e => rw [h] at hok; cases hok
  | ok st =>
    obtain ⟨st', h'⟩ := horder.1.mp ⟨st, h⟩
    exact ⟨st, st', rfl, h', (horder.2 st st' h h' insideHost "trust").2⟩

end Xpf.Nptv6
