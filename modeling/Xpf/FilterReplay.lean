/-
An output filter on the flow cache: `userspace-dp/src/filter/engine/tx_selection.rs`,
`cache_sensitive.rs`, `policer.rs` and the hit in `afxdp/poll_descriptor/flow_cache_hit.rs`.

The first packet of a flow is walked through the filter, and each term it passes is counted,
metered and merged in its turn. What the terms leave behind is kept in two lists, counters
and policers, and in three fields, so that a later packet needs no walk: the hit charges
and meters the lists and puts the fields together again.

The lists keep the order of the terms and the fields do not. So a hit agrees with a walk in
everything but the DSCP, and in the DSCP unless a term rewrites it after a policer of an
earlier term did (`Overruled`).
-/
import Xpf.FilterEval

set_option autoImplicit false

namespace Xpf.Filters

open ThreeColorPolicer

/-! ## The last of several settings -/

/-- The last setting that is made. -/
def lastSome {α : Type} : List (Option α) → Option α
  | [] => none
  | x :: rest => (lastSome rest).or x

section

variable {α : Type}

/-- Of settings in two columns, one of the first is followed by another of the second
alone. -/
def Overruled (rows : List (Option α × Option α)) : Prop :=
  ∃ pre a b post c, rows = pre ++ (some a, b) :: post ∧ (∀ row ∈ post, row.1 = none)
    ∧ lastSome (post.map Prod.snd) = some c ∧ c ≠ a

theorem lastSome_eq_none {settings : List (Option α)} : lastSome settings = none ↔ ∀ x ∈ settings, x = none := by
  induction settings with
  | nil => simp [lastSome]
  | cons x rest ih =>
    rw [lastSome, Option.or_eq_none_iff, ih]
    simp [and_comm]

/-- Where the first column is empty the rows are the second. -/
theorem lastSome_of_first_none {rows : List (Option α × Option α)} (h : ∀ row ∈ rows, row.1 = none) :
    lastSome (rows.map fun row => row.1.or row.2) = lastSome (rows.map Prod.snd) := by
  refine congrArg lastSome (List.map_congr_left fun row hrow => ?_)
  rw [h row hrow, Option.none_or]

/-- Settings taken row by row end with what the columns end with, the first outranking the
second, exactly where it is not overruled. -/
theorem lastSome_rows_iff (rows : List (Option α × Option α)) :
    (lastSome (rows.map Prod.fst)).or (lastSome (rows.map Prod.snd)) = lastSome (rows.map fun row => row.1.or row.2)
      ↔ ¬ Overruled rows := by
  induction rows with
  | nil =>
    refine iff_of_true rfl ?_
    rintro ⟨pre, a, b, post, c, h, -⟩
    simp at h
  | cons row rest ih =>
    obtain ⟨x, y⟩ := row
    simp only [List.map_cons, lastSome]
    cases hfirst : lastSome (rest.map Prod.fst) with
    | some a =>
      -- a later row sets the first column, so this one does not matter
      have hset : ¬ ∀ r ∈ rest, r.1 = none := by
        intro hnone
        have : lastSome (rest.map Prod.fst) = none := lastSome_eq_none.2 (by simpa using hnone)
        rw [hfirst] at this
        exact absurd this (by simp)
      have hmerged : ∃ m, lastSome (rest.map fun r => r.1.or r.2) = some m := by
        by_contra hnone
        rw [← Option.ne_none_iff_exists', not_not, lastSome_eq_none] at hnone
        refine hset fun r hr => ?_
        have := hnone _ (List.mem_map_of_mem hr)
        exact (Option.or_eq_none_iff.1 this).1
      obtain ⟨m, hm⟩ := hmerged
      rw [hfirst, hm] at ih
      rw [hm]
      simp only [Option.some_or] at ih ⊢
      rw [ih, not_iff_not]
      constructor
      · rintro ⟨pre, a', b, post, c, heq, hpost, hlast, hne⟩
        exact ⟨(x, y) :: pre, a', b, post, c, by rw [heq]; rfl, hpost, hlast, hne⟩
      · rintro ⟨pre, a', b, post, c, heq, hpost, hlast, hne⟩
        cases pre with
        | nil =>
          obtain ⟨-, rfl⟩ := List.cons.inj heq
          exact absurd hpost hset
        | cons first pre => exact ⟨pre, a', b, post, c, (List.cons.inj heq).2, hpost, hlast, hne⟩
    | none =>
      have hnone : ∀ r ∈ rest, r.1 = none := by simpa using lastSome_eq_none.1 hfirst
      have hlater : ∀ pre a b post, rest = pre ++ (some a, b) :: post → False := by
        intro pre a b post heq
        exact absurd (hnone (some a, b) (by rw [heq]; simp)) (by simp)
      rw [lastSome_of_first_none hnone, Option.none_or]
      cases x with
      | none =>
        refine iff_of_true (by simp) ?_
        rintro ⟨pre, a, b, post, c, heq, -⟩
        cases pre with
        | nil => exact absurd (List.cons.inj heq).1 (by simp)
        | cons first pre => exact hlater pre a b post (List.cons.inj heq).2
      | some a =>
        cases hsecond : lastSome (rest.map Prod.snd) with
        | none =>
          refine iff_of_true rfl ?_
          rintro ⟨pre, a', b, post, c, heq, -, hlast, -⟩
          cases pre with
          | nil =>
            obtain ⟨-, rfl⟩ := List.cons.inj heq
            rw [hsecond] at hlast
            exact absurd hlast (by simp)
          | cons first pre => exact hlater pre a' b post (List.cons.inj heq).2
        | some c =>
          simp only [Option.some_or, Option.some_inj]
          refine ⟨?_, fun h => ?_⟩
          · rintro rfl ⟨pre, a', b, post, c', heq, -, hlast, hne⟩
            cases pre with
            | nil =>
              obtain ⟨hrow, rfl⟩ := List.cons.inj heq
              rw [hsecond] at hlast
              exact hne ((Option.some_inj.1 hlast).symm.trans (Option.some_inj.1 (Prod.mk.inj hrow).1))
            | cons first pre => exact hlater pre a' b post (List.cons.inj heq).2
          · by_contra hne
            exact h ⟨[], a, y, rest, c, rfl, hnone, hsecond, fun heq => hne heq.symm⟩

end

/-! ## Lists of handles -/

/-- `CachedThreeColorPolicers::push` and `CachedFilterCounters::push`: a handle is kept once. -/
def pushOnce {α : Type} [DecidableEq α] (handles : List α) (handle : α) : List α :=
  if handle ∈ handles then handles else handles ++ [handle]

theorem mem_pushOnce {α : Type} [DecidableEq α] {handles : List α} {a b : α} :
    b ∈ pushOnce handles a ↔ b ∈ handles ∨ b = a := by
  unfold pushOnce
  split_ifs with h
  · exact ⟨.inl, fun hb => hb.elim id fun heq => heq ▸ h⟩
  · simp

/-! ## The walk of a live packet -/

/-- `TxSelectionFilterResult`. -/
structure TxSelectionFilterResult where
  action : FilterAction
  forwardingClass : Option String
  dscpRewrite : Option UInt8
  policerDrop : Bool
  policerMetered : Bool
  counters : List ℕ
  threeColorPolicers : List UInt32
  logMatch : Option FilterLogMatch
deriving DecidableEq

/-- `TxSelectionFilterResult::default`. -/
def TxSelectionFilterResult.default : TxSelectionFilterResult := ⟨.accept, none, none, false, false, [], [], none⟩

section

variable (filter : Filter) (packetBytes : ℕ) (nowNs : Option ℕ)

/-- `merge_matched_tx_modifiers`. -/
def mergeMatchedTxModifiers (acc : TxSelectionFilterResult) (term : FilterTerm) (collectDeferred : Bool) (fx : Effects) :
    TxSelectionFilterResult × Effects :=
  let (policerAction, fx) := applyTermThreeColorPolicer term nowNs packetBytes fx
  ({ acc with
      threeColorPolicers := match collectDeferred, term.threeColorPolicer with
        | true, some policer => pushOnce acc.threeColorPolicers policer
        | _, _ => acc.threeColorPolicers
      counters := if collectDeferred && term.hasCount then pushOnce acc.counters term.counter else acc.counters
      forwardingClass := (modifier term.forwardingClass).or acc.forwardingClass
      dscpRewrite := (policerAction.dscpRewrite.or term.dscpRewrite).or acc.dscpRewrite
      policerDrop := acc.policerDrop || policerAction.drop
      policerMetered := acc.policerMetered || policerAction.metered
      logMatch := (filterLogMatch filter term).or acc.logMatch }, fx)

/-- The loop of `evaluate_filter_ref_tx_selection_counted_family`. -/
def txSelectionLoop (hit : FilterTerm → Bool) (countTerms collectDeferred : Bool) :
    List FilterTerm → TxSelectionFilterResult → Effects → TxSelectionFilterResult × Effects
  | [], acc, fx => (acc, fx)
  | term :: rest, acc, fx =>
    if !hit term then txSelectionLoop hit countTerms collectDeferred rest acc fx
    else
      let fx := if countTerms && term.hasCount then fx.record term.counter packetBytes else fx
      let (acc, fx) := mergeMatchedTxModifiers filter packetBytes nowNs acc term collectDeferred fx
      if !term.continueTerm then ({ acc with action := term.action }, fx)
      else txSelectionLoop hit countTerms collectDeferred rest acc fx

/-- `evaluate_filter_ref_tx_selection_runtime_inner`. -/
def evaluateFilterRefTxSelectionRuntimeInner (p : Packet) (countTerms collectDeferred : Bool) (fromTerm : ℕ)
    (fx : Effects) : TxSelectionFilterResult × Effects :=
  byFamily p (fun hit => txSelectionLoop filter packetBytes nowNs hit countTerms collectDeferred
    (filter.terms.drop fromTerm) .default fx) (.default, fx)

end

/-- `evaluate_filter_ref_tx_selection_runtime_counted`. -/
def evaluateFilterRefTxSelectionRuntimeCounted (filter : Filter) (p : Packet) (packetBytes nowNs : ℕ) (fx : Effects) :
    TxSelectionFilterResult × Effects :=
  evaluateFilterRefTxSelectionRuntimeInner filter packetBytes (some nowNs) p true false 0 fx

/-! ## What is kept of a walk -/

/-- `CachedTxSelectionFilterResult`. -/
structure CachedTxSelectionFilterResult where
  action : FilterAction
  forwardingClass : Option String
  dscpRewrite : Option UInt8
  counters : List ℕ
  threeColorPolicers : List UInt32
  logMatch : Option FilterLogMatch
deriving DecidableEq

/-- `CachedTxSelectionFilterResult::default`. -/
def CachedTxSelectionFilterResult.default : CachedTxSelectionFilterResult := ⟨.accept, none, none, [], [], none⟩

/-- `merge_matched_cached_modifiers`. -/
def mergeMatchedCachedModifiers (acc : CachedTxSelectionFilterResult) (filter : Filter) (term : FilterTerm) :
    CachedTxSelectionFilterResult :=
  { acc with
    forwardingClass := (modifier term.forwardingClass).or acc.forwardingClass
    dscpRewrite := term.dscpRewrite.or acc.dscpRewrite
    counters := if term.hasCount then pushOnce acc.counters term.counter else acc.counters
    threeColorPolicers := term.threeColorPolicer.elim acc.threeColorPolicers (pushOnce acc.threeColorPolicers)
    logMatch := (filterLogMatch filter term).or acc.logMatch }

/-- The loop of `evaluate_filter_ref_tx_selection_cached_family`. -/
def cachedLoop (filter : Filter) (hit : FilterTerm → Bool) :
    List FilterTerm → CachedTxSelectionFilterResult → CachedTxSelectionFilterResult
  | [], acc => acc
  | term :: rest, acc =>
    if !hit term then cachedLoop filter hit rest acc
    else
      let acc := mergeMatchedCachedModifiers acc filter term
      if !term.continueTerm then { acc with action := term.action } else cachedLoop filter hit rest acc

/-- `evaluate_filter_ref_tx_selection_cached`: of the packet it reads the flow key and the DSCP. -/
def evaluateFilterRefTxSelectionCached (filter : Filter) (p : Packet) : CachedTxSelectionFilterResult :=
  byFamily p.flow (fun hit => cachedLoop filter hit filter.terms .default) .default

/-- `apply_cached_three_color_policers`. -/
def applyCachedThreeColorPolicers (policers : List UInt32) (nowNs packetBytes : ℕ) (fx : Effects) :
    ThreeColorPolicerAction × Effects :=
  policers.foldl (fun (state : ThreeColorPolicerAction × Effects) policer =>
    let (decision, fx) := state.2.meter policer nowNs packetBytes
    (⟨decision.dscpRewrite.or state.1.dscpRewrite, state.1.drop || decision.drop, true⟩, fx)) (⟨none, false, false⟩, fx)

/-! ## What becomes of a packet -/

/-- What a filter decides of a packet: drop it, rewrite its DSCP, give it a forwarding class. -/
structure Treatment where
  drop : Bool
  dscpRewrite : Option UInt8
  forwardingClass : Option String
deriving DecidableEq

/-- The live path, where no input filter is attached: `resolve_cos_tx_selection_internal`. -/
def liveTreatment (filter : Filter) (p : Packet) (packetBytes nowNs : ℕ) (fx : Effects) : Treatment × Effects :=
  let (result, fx) := evaluateFilterRefTxSelectionRuntimeCounted filter p packetBytes nowNs fx
  (⟨result.policerDrop || result.action ≠ .accept, result.dscpRewrite, result.forwardingClass⟩, fx)

/-- The hit, where no input filter is attached: `stage_flow_cache_hit` over the descriptor of
`resolve_cached_cos_tx_selection_impl`. -/
def hitTreatment (cached : CachedTxSelectionFilterResult) (packetBytes nowNs : ℕ) (fx : Effects) : Treatment × Effects :=
  let fx := cached.counters.foldl (fun fx counter => fx.record counter packetBytes) fx
  let (policerAction, fx) := applyCachedThreeColorPolicers cached.threeColorPolicers nowNs packetBytes fx
  (⟨cached.action ≠ .accept || policerAction.drop, policerAction.dscpRewrite.or cached.dscpRewrite,
    cached.forwardingClass⟩, fx)

/-! ## Policers of their own -/

section

variable (nowNs packetBytes : ℕ)

/-- What a policer decides of the packet. -/
def decision (policers : UInt32 → ThreeColorPolicerRuntime) (policer : UInt32) : ThreeColorDecision :=
  ((policers policer).meter nowNs packetBytes .green).1

/-- The policers after one of them has metered the packet. -/
def metered (policers : UInt32 → ThreeColorPolicerRuntime) (policer : UInt32) : UInt32 → ThreeColorPolicerRuntime :=
  fun i => if i = policer then ((policers policer).meter nowNs packetBytes .green).2 else policers i

/-- The DSCP that the policer of a term gives the packet. -/
def policerRewrite (policers : UInt32 → ThreeColorPolicerRuntime) (term : FilterTerm) : Option UInt8 :=
  term.threeColorPolicer.bind fun policer => (decision nowNs packetBytes policers policer).dscpRewrite

/-- The policer of a term drops the packet. -/
def policerDrops (policers : UInt32 → ThreeColorPolicerRuntime) (term : FilterTerm) : Bool :=
  term.threeColorPolicer.any fun policer => (decision nowNs packetBytes policers policer).drop

/-- The policers of the terms. -/
def policersOf (terms : List FilterTerm) : List UInt32 := terms.filterMap (·.threeColorPolicer)

variable {nowNs packetBytes} {policers : UInt32 → ThreeColorPolicerRuntime}

theorem decision_metered {i policer : UInt32} (h : i ≠ policer) :
    decision nowNs packetBytes (metered nowNs packetBytes policers policer) i = decision nowNs packetBytes policers i := by
  unfold decision metered
  rw [if_neg h]

/-- A term is not affected by the policer of another. -/
theorem policerRewrite_metered {term : FilterTerm} {policer : UInt32} (h : term.threeColorPolicer ≠ some policer) :
    policerRewrite nowNs packetBytes (metered nowNs packetBytes policers policer) term
      = policerRewrite nowNs packetBytes policers term := by
  unfold policerRewrite
  cases hterm : term.threeColorPolicer with
  | none => rfl
  | some i =>
    rw [Option.bind_some, Option.bind_some, decision_metered]
    rintro rfl
    exact h hterm

theorem policerDrops_metered {term : FilterTerm} {policer : UInt32} (h : term.threeColorPolicer ≠ some policer) :
    policerDrops nowNs packetBytes (metered nowNs packetBytes policers policer) term
      = policerDrops nowNs packetBytes policers term := by
  unfold policerDrops
  cases hterm : term.threeColorPolicer with
  | none => rfl
  | some i =>
    rw [Option.any_some, Option.any_some, decision_metered]
    rintro rfl
    exact h hterm

theorem policersOf_cons (term : FilterTerm) (terms : List FilterTerm) :
    policersOf (term :: terms) = term.threeColorPolicer.toList ++ policersOf terms := by
  unfold policersOf
  cases hterm : term.threeColorPolicer <;> simp [List.filterMap_cons, hterm]

theorem ne_of_not_mem_policersOf {terms : List FilterTerm} {policer : UInt32} (h : policer ∉ policersOf terms)
    {term : FilterTerm} (hterm : term ∈ terms) : term.threeColorPolicer ≠ some policer :=
  fun heq => h (List.mem_filterMap.2 ⟨term, hterm, heq⟩)

theorem policersOf_reached_sublist (hit : FilterTerm → Bool) : ∀ terms : List FilterTerm,
    (policersOf (reached hit terms)).Sublist (policersOf terms) := by
  intro terms
  refine List.Sublist.filterMap _ ?_
  induction terms with
  | nil => exact List.Sublist.refl _
  | cons term rest ih =>
    by_cases hhit : hit term = true
    · by_cases hcontinue : term.continueTerm = true
      · rw [reached_through hhit hcontinue]
        exact ih.cons_cons term
      · rw [reached_stop hhit (Bool.eq_false_of_not_eq_true hcontinue)]
        exact (List.nil_sublist rest).cons_cons term
    · rw [reached_miss (Bool.eq_false_of_not_eq_true hhit)]
      exact ih.cons term

end

/-! ## What the live walk makes of the terms -/

section

variable {filter : Filter} {hit : FilterTerm → Bool} {packetBytes nowNs : ℕ}

theorem applyTermThreeColorPolicer_spec (packetBytes nowNs : ℕ) (term : FilterTerm) (fx : Effects) :
    let applied := applyTermThreeColorPolicer term (some nowNs) packetBytes fx
    applied.1.dscpRewrite = policerRewrite nowNs packetBytes fx.policers term
      ∧ applied.1.drop = policerDrops nowNs packetBytes fx.policers term
      ∧ applied.2.policers = term.threeColorPolicer.toList.foldl (metered nowNs packetBytes) fx.policers := by
  unfold applyTermThreeColorPolicer policerRewrite policerDrops
  cases term.threeColorPolicer with
  | none => exact ⟨rfl, rfl, rfl⟩
  | some policer => exact ⟨rfl, rfl, rfl⟩

/-- What a term sets, if the terms before it have metered none of the policers after it. -/
theorem settings_metered {term : FilterTerm} {terms : List FilterTerm} {policers : UInt32 → ThreeColorPolicerRuntime}
    (hown : (policersOf (term :: terms)).Nodup) {u : FilterTerm} (hu : u ∈ terms) :
    let after := term.threeColorPolicer.toList.foldl (metered nowNs packetBytes) policers
    policerRewrite nowNs packetBytes after u = policerRewrite nowNs packetBytes policers u
      ∧ policerDrops nowNs packetBytes after u = policerDrops nowNs packetBytes policers u := by
  intro after
  cases hterm : term.threeColorPolicer with
  | none =>
    have hafter : after = policers := by
      simp only [after, hterm, Option.toList_none, List.foldl_nil]
    rw [hafter]
    exact ⟨rfl, rfl⟩
  | some policer =>
    have hafter : after = metered nowNs packetBytes policers policer := by
      simp only [after, hterm, Option.toList_some, List.foldl_cons, List.foldl_nil]
    rw [policersOf_cons, hterm, Option.toList_some, List.singleton_append, List.nodup_cons] at hown
    have hne := ne_of_not_mem_policersOf hown.1 hu
    rw [hafter]
    exact ⟨policerRewrite_metered hne, policerDrops_metered hne⟩

theorem mergeMatchedTxModifiers_spec (filter : Filter) (packetBytes nowNs : ℕ) (acc : TxSelectionFilterResult)
    (term : FilterTerm) (fx : Effects) :
    let merged := mergeMatchedTxModifiers filter packetBytes (some nowNs) acc term false fx
    merged.1.action = acc.action
      ∧ merged.1.forwardingClass = (modifier term.forwardingClass).or acc.forwardingClass
      ∧ merged.1.dscpRewrite
        = ((policerRewrite nowNs packetBytes fx.policers term).or term.dscpRewrite).or acc.dscpRewrite
      ∧ merged.1.policerDrop = (acc.policerDrop || policerDrops nowNs packetBytes fx.policers term)
      ∧ merged.2.charged = fx.charged
      ∧ merged.2.policers = term.threeColorPolicer.toList.foldl (metered nowNs packetBytes) fx.policers := by
  obtain ⟨hrewrite, hdrop, hpolicers⟩ := applyTermThreeColorPolicer_spec packetBytes nowNs term fx
  rw [← hrewrite, ← hdrop]
  exact ⟨rfl, rfl, rfl, rfl, applyTermThreeColorPolicer_charged term (some nowNs) fx, hpolicers⟩

theorem txSelectionLoop_spec (filter : Filter) (hit : FilterTerm → Bool) (packetBytes nowNs : ℕ) :
    ∀ (terms : List FilterTerm) (acc : TxSelectionFilterResult) (fx : Effects), (policersOf terms).Nodup →
    let result := txSelectionLoop filter packetBytes (some nowNs) hit true false terms acc fx
    result.1.action = ((terminal hit terms).map (·.action)).getD acc.action
      ∧ result.1.forwardingClass
        = (lastSome ((reached hit terms).map fun t => modifier t.forwardingClass)).or acc.forwardingClass
      ∧ result.1.dscpRewrite = (lastSome ((reached hit terms).map fun t =>
          (policerRewrite nowNs packetBytes fx.policers t).or t.dscpRewrite)).or acc.dscpRewrite
      ∧ result.1.policerDrop
        = (acc.policerDrop || (reached hit terms).any (policerDrops nowNs packetBytes fx.policers))
      ∧ result.2.charged = fx.charged ++ charges packetBytes (reached hit terms)
      ∧ result.2.policers = (policersOf (reached hit terms)).foldl (metered nowNs packetBytes) fx.policers := by
  intro terms
  induction terms with
  | nil =>
    intro acc fx _
    exact ⟨rfl, rfl, rfl, by simp [txSelectionLoop, reached], by simp [txSelectionLoop, reached, charges], rfl⟩
  | cons term rest ih =>
    intro acc fx hown
    have hrest : (policersOf rest).Nodup := hown.sublist (by rw [policersOf_cons]; exact List.sublist_append_right ..)
    unfold txSelectionLoop
    by_cases hhit : hit term = true
    · rw [if_neg (by simp [hhit])]
      simp only [Bool.true_and]
      have hsame : (if term.hasCount then fx.record term.counter packetBytes else fx).policers = fx.policers := by
        split <;> rfl
      have hcounted := charges_cons packetBytes term (reached hit rest) fx
      have hlast := charges_cons packetBytes term [] fx
      obtain ⟨haction, hclass, hdscp, hdrop, hcharged, hpolicers⟩ := mergeMatchedTxModifiers_spec filter packetBytes nowNs
        acc term (if term.hasCount then fx.record term.counter packetBytes else fx)
      rw [hsame] at hdscp hdrop hpolicers
      rw [← hcharged] at hcounted hlast
      generalize mergeMatchedTxModifiers filter packetBytes (some nowNs) acc term false
        (if term.hasCount then fx.record term.counter packetBytes else fx) = merged
        at haction hclass hdscp hdrop hcounted hlast hpolicers ⊢
      obtain ⟨acc', fx'⟩ := merged
      dsimp only at haction hclass hdscp hdrop hcounted hlast hpolicers ⊢
      by_cases hcontinue : term.continueTerm = true
      · rw [if_neg (by simp [hcontinue]), reached_through hhit hcontinue, terminal_through hcontinue]
        obtain ⟨h₁, h₂, h₃, h₄, h₅, h₆⟩ := ih acc' fx' hrest
        have hsettings : ∀ u ∈ reached hit rest,
            policerRewrite nowNs packetBytes fx'.policers u = policerRewrite nowNs packetBytes fx.policers u
              ∧ policerDrops nowNs packetBytes fx'.policers u = policerDrops nowNs packetBytes fx.policers u := by
          intro u hu
          rw [hpolicers]
          exact settings_metered hown (reached_subset hu).1
        have hrewrites : (reached hit rest).map (fun t =>
              (policerRewrite nowNs packetBytes fx'.policers t).or t.dscpRewrite)
            = (reached hit rest).map fun t => (policerRewrite nowNs packetBytes fx.policers t).or t.dscpRewrite :=
          List.map_congr_left fun u hu => by rw [(hsettings u hu).1]
        have hdrops : (reached hit rest).any (policerDrops nowNs packetBytes fx'.policers)
            = (reached hit rest).any (policerDrops nowNs packetBytes fx.policers) := by
          rw [Bool.eq_iff_iff, List.any_eq_true, List.any_eq_true]
          exact exists_congr fun u => and_congr_right fun hu => by rw [(hsettings u hu).2]
        refine ⟨?_, ?_, ?_, ?_, ?_, ?_⟩
        · rw [h₁, haction]
        · rw [h₂, hclass, List.map_cons, lastSome, Option.or_assoc]
        · rw [h₃, hdscp, hrewrites, List.map_cons, lastSome]
          simp only [Option.or_assoc]
        · rw [h₄, hdrop, hdrops, List.any_cons, Bool.or_assoc]
        · rw [h₅, hcounted]
        · rw [h₆, hpolicers, policersOf_cons, List.foldl_append]
      · have hstop := Bool.eq_false_of_not_eq_true hcontinue
        rw [if_pos (by simp [hstop]), reached_stop hhit hstop, terminal_stop hhit hstop]
        rw [show charges packetBytes [] = [] from rfl, List.append_nil] at hlast
        refine ⟨rfl, ?_, ?_, ?_, hlast, ?_⟩
        · rw [hclass]
          rfl
        · rw [hdscp]
          rfl
        · rw [hdrop, List.any_cons, List.any_nil, Bool.or_false]
        · rw [hpolicers, policersOf_cons]
          simp [policersOf]
    · have hmiss := Bool.eq_false_of_not_eq_true hhit
      rw [if_pos (by simp [hmiss]), reached_miss hmiss, terminal_miss hmiss]
      exact ih acc fx hrest

/-! ## What the hit makes of them -/

theorem cachedLoop_spec (filter : Filter) (hit : FilterTerm → Bool) :
    ∀ (terms : List FilterTerm) (acc : CachedTxSelectionFilterResult),
    (acc.threeColorPolicers ++ policersOf terms).Nodup →
    let result := cachedLoop filter hit terms acc
    result.action = ((terminal hit terms).map (·.action)).getD acc.action
      ∧ result.forwardingClass
        = (lastSome ((reached hit terms).map fun t => modifier t.forwardingClass)).or acc.forwardingClass
      ∧ result.dscpRewrite = (lastSome ((reached hit terms).map (·.dscpRewrite))).or acc.dscpRewrite
      ∧ (∀ c, c ∈ result.counters ↔ c ∈ acc.counters ∨ ∃ t ∈ reached hit terms, t.hasCount = true ∧ t.counter = c)
      ∧ result.threeColorPolicers = acc.threeColorPolicers ++ policersOf (reached hit terms) := by
  intro terms
  induction terms with
  | nil =>
    intro acc _
    exact ⟨rfl, rfl, rfl, fun c => by simp [cachedLoop, reached], by simp [cachedLoop, reached, policersOf]⟩
  | cons term rest ih =>
    intro acc hown
    rw [policersOf_cons, ← List.append_assoc] at hown
    unfold cachedLoop
    by_cases hhit : hit term = true
    · rw [if_neg (by simp [hhit])]
      dsimp only
      have hpolicers : (mergeMatchedCachedModifiers acc filter term).threeColorPolicers
          = acc.threeColorPolicers ++ term.threeColorPolicer.toList := by
        unfold mergeMatchedCachedModifiers
        cases hterm : term.threeColorPolicer with
        | none => simp
        | some policer =>
          rw [hterm] at hown
          have hnew : policer ∉ acc.threeColorPolicers := by
            have := (List.nodup_append.1 hown).1
            rw [Option.toList_some, List.nodup_append] at this
            exact fun hmem => this.2.2 policer hmem policer List.mem_cons_self rfl
          simp [pushOnce, hnew]
      have hcounters : ∀ c, c ∈ (mergeMatchedCachedModifiers acc filter term).counters
          ↔ c ∈ acc.counters ∨ (term.hasCount = true ∧ term.counter = c) := by
        intro c
        unfold mergeMatchedCachedModifiers
        cases term.hasCount with
        | false => simp
        | true => simp [mem_pushOnce, eq_comm]
      by_cases hcontinue : term.continueTerm = true
      · rw [if_neg (by simp [hcontinue]), reached_through hhit hcontinue, terminal_through hcontinue]
        obtain ⟨h₁, h₂, h₃, h₄, h₅⟩ := ih (mergeMatchedCachedModifiers acc filter term) (by rw [hpolicers]; exact hown)
        refine ⟨h₁, ?_, ?_, fun c => ?_, ?_⟩
        · rw [h₂, List.map_cons, lastSome, Option.or_assoc]
          rfl
        · rw [h₃, List.map_cons, lastSome, Option.or_assoc]
          rfl
        · rw [h₄, hcounters, or_assoc, List.exists_mem_cons_iff]
        · rw [h₅, hpolicers, policersOf_cons, List.append_assoc]
      · have hstop := Bool.eq_false_of_not_eq_true hcontinue
        rw [if_pos (by simp [hstop]), reached_stop hhit hstop, terminal_stop hhit hstop]
        refine ⟨rfl, rfl, rfl, fun c => ?_, ?_⟩
        · rw [List.exists_mem_cons_iff]
          simpa using hcounters c
        · rw [policersOf_cons]
          simpa [policersOf] using hpolicers
    · have hmiss := Bool.eq_false_of_not_eq_true hhit
      rw [if_pos (by simp [hmiss]), reached_miss hmiss, terminal_miss hmiss]
      refine ih acc (hown.sublist ?_)
      rw [List.append_assoc]
      exact (List.Sublist.refl _).append (List.sublist_append_right ..)

theorem applyCachedThreeColorPolicers_fold (nowNs packetBytes : ℕ) :
    ∀ (ids : List UInt32) (state : ThreeColorPolicerAction × Effects), ids.Nodup →
    let result := ids.foldl (fun (state : ThreeColorPolicerAction × Effects) policer =>
      let (decision, fx) := state.2.meter policer nowNs packetBytes
      (⟨decision.dscpRewrite.or state.1.dscpRewrite, state.1.drop || decision.drop, true⟩, fx)) state
    result.1.dscpRewrite = (lastSome (ids.map fun i => (decision nowNs packetBytes state.2.policers i).dscpRewrite)).or
        state.1.dscpRewrite
      ∧ result.1.drop = (state.1.drop || ids.any fun i => (decision nowNs packetBytes state.2.policers i).drop)
      ∧ result.2.charged = state.2.charged
      ∧ result.2.policers = ids.foldl (metered nowNs packetBytes) state.2.policers := by
  intro ids
  induction ids with
  | nil => exact fun state _ => ⟨rfl, by simp, rfl, rfl⟩
  | cons policer rest ih =>
    intro state hown
    obtain ⟨hfirst, hrest⟩ := List.nodup_cons.1 hown
    obtain ⟨h₁, h₂, h₃, h₄⟩ := ih (⟨(decision nowNs packetBytes state.2.policers policer).dscpRewrite.or
        state.1.dscpRewrite, state.1.drop || (decision nowNs packetBytes state.2.policers policer).drop, true⟩,
      { state.2 with policers := metered nowNs packetBytes state.2.policers policer }) hrest
    have hsame : ∀ i ∈ rest, decision nowNs packetBytes (metered nowNs packetBytes state.2.policers policer) i
        = decision nowNs packetBytes state.2.policers i :=
      fun i hi => decision_metered fun heq => hfirst (heq ▸ hi)
    refine ⟨?_, ?_, h₃, h₄⟩
    · rw [List.foldl_cons]
      refine h₁.trans ?_
      rw [List.map_cons, lastSome, List.map_congr_left fun i hi => by rw [hsame i hi], Option.or_assoc]
    · rw [List.foldl_cons]
      refine h₂.trans ?_
      rw [List.any_cons, ← Bool.or_assoc]
      refine congrArg _ ?_
      rw [Bool.eq_iff_iff, List.any_eq_true, List.any_eq_true]
      exact exists_congr fun i => and_congr_right fun hi => by rw [hsame i hi]

/-- The rewrites of the policers alone are those of the terms that have one. -/
theorem lastSome_policersOf (policers : UInt32 → ThreeColorPolicerRuntime) : ∀ terms : List FilterTerm,
    lastSome ((policersOf terms).map fun i => (decision nowNs packetBytes policers i).dscpRewrite)
      = lastSome (terms.map (policerRewrite nowNs packetBytes policers)) := by
  intro terms
  induction terms with
  | nil => rfl
  | cons term rest ih =>
    rw [policersOf_cons, List.map_append, List.map_cons, lastSome, ← ih]
    unfold policerRewrite
    cases term.threeColorPolicer with
    | none => simp
    | some policer => rfl

theorem any_policersOf (policers : UInt32 → ThreeColorPolicerRuntime) : ∀ terms : List FilterTerm,
    ((policersOf terms).any fun i => (decision nowNs packetBytes policers i).drop)
      = terms.any (policerDrops nowNs packetBytes policers) := by
  intro terms
  induction terms with
  | nil => rfl
  | cons term rest ih =>
    rw [policersOf_cons, List.any_append, List.any_cons, ← ih]
    unfold policerDrops
    cases term.threeColorPolicer with
    | none => simp
    | some policer => simp

theorem record_foldl (packetBytes : ℕ) : ∀ (counters : List ℕ) (fx : Effects),
    counters.foldl (fun fx counter => fx.record counter packetBytes) fx
      = { fx with charged := fx.charged ++ counters.map fun c => (c, packetBytes) } := by
  intro counters
  induction counters with
  | nil => intro fx; simp
  | cons counter rest ih =>
    intro fx
    rw [List.foldl_cons, ih]
    simp [Effects.record]

/-! ### A packet that no term matches -/

theorem txSelectionLoop_miss (nowNs : Option ℕ) (countTerms collectDeferred : Bool) (acc : TxSelectionFilterResult)
    (fx : Effects) : ∀ terms : List FilterTerm,
    txSelectionLoop filter packetBytes nowNs (fun _ => false) countTerms collectDeferred terms acc fx = (acc, fx) := by
  intro terms
  induction terms with
  | nil => rfl
  | cons term rest ih => exact ih

theorem cachedLoop_miss (acc : CachedTxSelectionFilterResult) : ∀ terms : List FilterTerm,
    cachedLoop filter (fun _ => false) terms acc = acc := by
  intro terms
  induction terms with
  | nil => rfl
  | cons term rest ih => exact ih

end

/-! ## Hits and live packets -/

/-- The packet is treated the same, and so are the counters and the policers. -/
structure SameTreatment (a b : Treatment × Effects) : Prop where
  drop : a.1.drop = b.1.drop
  dscpRewrite : a.1.dscpRewrite = b.1.dscpRewrite
  forwardingClass : a.1.forwardingClass = b.1.forwardingClass
  counters : ∀ charge, charge ∈ a.2.charged ↔ charge ∈ b.2.charged
  policers : a.2.policers = b.2.policers

/-- For each term the packet passes, the DSCP its policer gives the packet and the one the
term itself does. -/
def rewrites (filter : Filter) (p : Packet) (packetBytes nowNs : ℕ) (fx : Effects) : List (Option UInt8 × Option UInt8) :=
  (reached (termMatches p) filter.terms).map fun t => (policerRewrite nowNs packetBytes fx.policers t, t.dscpRewrite)

section

variable {filter : Filter} {p : Packet}

theorem liveTreatment_spec (hown : (policersOf filter.terms).Nodup) (packetBytes nowNs : ℕ) (fx : Effects) :
    let terms := reached (termMatches p) filter.terms
    liveTreatment filter p packetBytes nowNs fx
      = (⟨terms.any (policerDrops nowNs packetBytes fx.policers)
            || decide (((terminal (termMatches p) filter.terms).map (·.action)).getD .accept ≠ .accept),
          lastSome (terms.map fun t => (policerRewrite nowNs packetBytes fx.policers t).or t.dscpRewrite),
          lastSome (terms.map fun t => modifier t.forwardingClass)⟩,
        ⟨fx.charged ++ charges packetBytes terms, (policersOf terms).foldl (metered nowNs packetBytes) fx.policers⟩) := by
  intro terms
  have heq : evaluateFilterRefTxSelectionRuntimeCounted filter p packetBytes nowNs fx
      = txSelectionLoop filter packetBytes (some nowNs) (termMatches p) true false filter.terms .default fx := by
    unfold evaluateFilterRefTxSelectionRuntimeCounted evaluateFilterRefTxSelectionRuntimeInner
    exact byFamily_eq p (txSelectionLoop_miss (some nowNs) true false .default fx _)
  obtain ⟨haction, hclass, hdscp, hdrop, hcharged, hpolicers⟩ :=
    txSelectionLoop_spec filter (termMatches p) packetBytes nowNs filter.terms .default fx hown
  unfold liveTreatment
  rw [heq]
  generalize txSelectionLoop filter packetBytes (some nowNs) (termMatches p) true false filter.terms .default fx = walk
    at haction hclass hdscp hdrop hcharged hpolicers ⊢
  obtain ⟨result, charged, policers⟩ := walk
  simp only [TxSelectionFilterResult.default, Option.or_none, Bool.false_or] at haction hclass hdscp hdrop hcharged hpolicers
  simp only [haction, hclass, hdscp, hdrop, hcharged, hpolicers, terms]

theorem hitTreatment_spec {hit : FilterTerm → Bool} {cached : CachedTxSelectionFilterResult}
    (hcached : cached = cachedLoop filter hit filter.terms .default) (hown : (policersOf filter.terms).Nodup)
    (packetBytes nowNs : ℕ) (fx : Effects) :
    let terms := reached hit filter.terms
    (hitTreatment cached packetBytes nowNs fx).1
        = ⟨decide (((terminal hit filter.terms).map (·.action)).getD .accept ≠ .accept)
            || terms.any (policerDrops nowNs packetBytes fx.policers),
          (lastSome (terms.map (policerRewrite nowNs packetBytes fx.policers))).or (lastSome (terms.map (·.dscpRewrite))),
          lastSome (terms.map fun t => modifier t.forwardingClass)⟩
      ∧ (∀ charge, charge ∈ (hitTreatment cached packetBytes nowNs fx).2.charged
        ↔ charge ∈ fx.charged ++ charges packetBytes terms)
      ∧ (hitTreatment cached packetBytes nowNs fx).2.policers
        = (policersOf terms).foldl (metered nowNs packetBytes) fx.policers := by
  intro terms
  obtain ⟨haction, hclass, hdscp, hcounters, hpolicers⟩ :=
    cachedLoop_spec filter hit filter.terms .default (by simpa [CachedTxSelectionFilterResult.default] using hown)
  rw [← hcached] at haction hclass hdscp hcounters hpolicers
  simp only [CachedTxSelectionFilterResult.default, Option.or_none, List.nil_append, List.not_mem_nil, false_or]
    at haction hclass hdscp hcounters hpolicers
  have hnodup : (policersOf terms).Nodup := hown.sublist (policersOf_reached_sublist hit filter.terms)
  obtain ⟨hrewrite, hdrop, hcharged, hmetered⟩ := applyCachedThreeColorPolicers_fold nowNs packetBytes (policersOf terms)
    (⟨none, false, false⟩, { fx with charged := fx.charged ++ cached.counters.map fun c => (c, packetBytes) }) hnodup
  rw [Option.or_none, lastSome_policersOf] at hrewrite
  rw [Bool.false_or, any_policersOf] at hdrop
  unfold hitTreatment applyCachedThreeColorPolicers
  simp only [record_foldl, hpolicers]
  refine ⟨?_, fun charge => ?_, hmetered⟩
  · rw [haction, hclass, hdscp]
    exact congrArg₂ (fun drop rewrite => Treatment.mk drop (Option.or rewrite _) _)
      (congrArg (_ || ·) hdrop) hrewrite
  · rw [hcharged, List.mem_append, List.mem_append]
    refine or_congr_right ?_
    simp only [charges, List.mem_map, List.mem_filter, hcounters]
    constructor
    · rintro ⟨c, ⟨t, ht, hcount, rfl⟩, rfl⟩
      exact ⟨t, ⟨ht, hcount⟩, rfl⟩
    · rintro ⟨t, ⟨ht, hcount⟩, rfl⟩
      exact ⟨t.counter, ⟨t, ht, hcount, rfl⟩, rfl⟩

/-- A term of a filter without conditions on single packets or the DSCP matches the packets
of a flow alike. -/
theorem termMatches_seed (hdscp : filter.hasDscpMatchTerms = false) (hl4 : filter.hasPerPacketL4MatchTerms = false)
    (hp : Whole p) (seedDscp : UInt8) {term : FilterTerm} (hterm : term ∈ filter.terms) :
    termMatches ({ p with dscp := seedDscp } : Packet).flow term = termMatches p term := by
  rw [filter.dscp_eq, List.any_eq_false] at hdscp
  rw [filter.l4_eq, List.any_eq_false] at hl4
  have hplain : term.dscpMatchEnabled = false := Bool.eq_false_of_not_eq_true (hdscp term hterm)
  have hseed : Whole ({ p with dscp := seedDscp } : Packet) := ⟨hp.transport, hp.unfragmented, hp.ports⟩
  rw [termMatches_flow hseed (Bool.eq_false_of_not_eq_true (hl4 term hterm)), termMatches_dscp p hplain]

theorem reached_congr {hit hit' : FilterTerm → Bool} : ∀ {terms : List FilterTerm},
    (∀ term ∈ terms, hit term = hit' term) → reached hit terms = reached hit' terms ∧ terminal hit terms = terminal hit' terms := by
  intro terms
  induction terms with
  | nil => exact fun _ => ⟨rfl, rfl⟩
  | cons term rest ih =>
    intro h
    obtain ⟨hreached, hterminal⟩ := ih fun u hu => h u (List.mem_cons_of_mem _ hu)
    unfold terminal at hterminal ⊢
    unfold reached
    rw [h term List.mem_cons_self, hreached, List.find?_cons, List.find?_cons, h term List.mem_cons_self, hterminal]
    exact ⟨rfl, rfl⟩

end

/-! ### A policer that marks, and a term that marks after it -/

/-- A policer that marks what it lets pass. -/
def markingEffects : Effects where
  charged := []
  policers := fun _ =>
    { state := ⟨⟨.singleRate, true, 1000, 5000, 0, 5000, ⟨⟨some 10, false⟩, ⟨some 12, false⟩, ⟨none, true⟩⟩⟩, 5000, 5000, 0, 0⟩
      counters := ⟨⟨0, 0⟩, ⟨0, 0⟩, ⟨0, 0⟩, ⟨0, 0⟩⟩ }

/-- Police and go on; then count and mark. -/
def markingFilter (mark : Option UInt8) : Filter := compiled 0
  [{ plainTerm 0 0 with threeColorPolicer := some 1, continueTerm := true },
    { plainTerm 1 1 with hasCount := true, dscpRewrite := mark }]

theorem webPacket_whole : Whole webPacket := ⟨by decide, rfl, rfl⟩

end Xpf.Filters
