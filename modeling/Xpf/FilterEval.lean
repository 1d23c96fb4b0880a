/-
Walks over the terms of a filter: `userspace-dp/src/filter/engine/eval.rs`.

One walk gives the whole result of a filter. Where a filter may steer the route lookup, the
packet path takes it apart: a walk that stops at a term with a routing instance, a walk for
the routing instance that runs only where the first accepts, and a walk for the log alone.
Each charges the counters of the terms it has passed, or leaves that to another.

All of them pass the same terms: those that match, up to the first that does not fall
through (`reached`). Each walk has one lemma that says what it makes of these, and that the
walks agree is read off from the lemmas.

What a walk does to the world is `Effects`: the counters it charges, in order, and the
policers it meters.
-/
import Xpf.FilterTerms
import Xpf.ThreeColorPolicer

set_option autoImplicit false

namespace Xpf.Filters

open ThreeColorPolicer

/-! ## Results and effects -/

/-- `FilterLogMatch`. -/
structure FilterLogMatch where
  filterId : UInt32
  termId : UInt32
  action : FilterAction
deriving DecidableEq

/-- `FilterResult`. -/
structure FilterResult where
  action : FilterAction
  dscpRewrite : Option UInt8
  policerName : Option String
  policerDrop : Bool
  deferredAtRoutingTerm : Option ℕ
  routingInstance : Option String
  forwardingClass : Option String
  log : Bool
  logMatch : Option FilterLogMatch
deriving DecidableEq

/-- `FilterResult::default`. -/
def FilterResult.default : FilterResult := ⟨.accept, none, none, false, none, none, none, false, none⟩

/-- `FilterRoutingInstanceResult`. -/
structure FilterRoutingInstanceResult where
  routingInstance : String
  log : Bool
  action : FilterAction
  filterId : UInt32
  termId : UInt32
  logMatch : Option FilterLogMatch
deriving DecidableEq

/-- `ThreeColorPolicerAction`. -/
structure ThreeColorPolicerAction where
  dscpRewrite : Option UInt8
  drop : Bool
  metered : Bool
deriving DecidableEq

/-- The charges made so far, each a counter and the bytes it is charged with, and the
policers by id. -/
structure Effects where
  charged : List (ℕ × ℕ)
  policers : UInt32 → ThreeColorPolicerRuntime

/-- `record_filter_counter`. -/
def Effects.record (fx : Effects) (counter packetBytes : ℕ) : Effects :=
  { fx with charged := fx.charged ++ [(counter, packetBytes)] }

/-- A policer of the table metered. -/
def Effects.meter (fx : Effects) (policer : UInt32) (nowNs packetBytes : ℕ) : ThreeColorDecision × Effects :=
  let (decision, runtime) := (fx.policers policer).meter nowNs packetBytes .green
  (decision, { fx with policers := fun i => if i = policer then runtime else fx.policers i })

/-- `apply_term_three_color_policer`. -/
def applyTermThreeColorPolicer (term : FilterTerm) (nowNs : Option ℕ) (packetBytes : ℕ) (fx : Effects) :
    ThreeColorPolicerAction × Effects :=
  match term.threeColorPolicer, nowNs with
  | some policer, some nowNs =>
    let (decision, fx) := fx.meter policer nowNs packetBytes
    (⟨decision.dscpRewrite, decision.drop, true⟩, fx)
  | _, _ => (⟨none, false, false⟩, fx)

/-- `filter_log_match`. -/
def filterLogMatch (filter : Filter) (term : FilterTerm) : Option FilterLogMatch :=
  if term.log then some ⟨filter.id, term.id, term.action⟩ else none

/-- `normalize_log_match_action`. -/
def normalizeLogMatchAction (acc : FilterResult) : FilterResult :=
  { acc with logMatch := acc.logMatch.map fun lm => { lm with action := acc.action } }

/-- The modifier of a term, where it is set. -/
def modifier (s : String) : Option String := if s.isEmpty then none else some s

/-- `merge_matched_modifiers`. -/
def mergeMatchedModifiers (acc : FilterResult) (filter : Filter) (term : FilterTerm) (nowNs : Option ℕ)
    (packetBytes : ℕ) (fx : Effects) : FilterResult × Effects :=
  let (policerAction, fx) := applyTermThreeColorPolicer term nowNs packetBytes fx
  ({ acc with
      dscpRewrite := (policerAction.dscpRewrite.or term.dscpRewrite).or acc.dscpRewrite
      policerDrop := acc.policerDrop || policerAction.drop
      policerName := (modifier term.policerName).or acc.policerName
      routingInstance := (modifier term.routingInstance).or acc.routingInstance
      forwardingClass := (modifier term.forwardingClass).or acc.forwardingClass
      log := acc.log || term.log
      logMatch := (filterLogMatch filter term).or acc.logMatch }, fx)

/-! ## The walks -/

section

variable (filter : Filter) (hit : FilterTerm → Bool) (packetBytes : ℕ)

/-- The loop of `evaluate_filter_ref_counted_family`. -/
def countedLoop (nowNs : Option ℕ) : List FilterTerm → FilterResult → Effects → FilterResult × Effects
  | [], acc, fx => (normalizeLogMatchAction acc, fx)
  | term :: rest, acc, fx =>
    if !hit term then countedLoop nowNs rest acc fx
    else
      let fx := if term.hasCount then fx.record term.counter packetBytes else fx
      let (acc, fx) := mergeMatchedModifiers acc filter term nowNs packetBytes fx
      if !term.continueTerm then (normalizeLogMatchAction { acc with action := term.action }, fx)
      else countedLoop nowNs rest acc fx

/-- `NonRoutingCountPolicy`. -/
inductive NonRoutingCountPolicy where
  | always
  | onlyTerminalNonAccept
  | never
deriving DecidableEq

/-- `NonRoutingCountPolicy::counting`: count during the walk, and count anew at the end. -/
def NonRoutingCountPolicy.counting : NonRoutingCountPolicy → Bool × Bool
  | .always => (true, false)
  | .onlyTerminalNonAccept => (false, true)
  | .never => (false, false)

/-- The loop of `count_matched_non_routing_terms_family`; the terminal term is compared by
its address, which is its place. -/
def countMatchedNonRoutingTerms (terminal : ℕ) : List (FilterTerm × ℕ) → Effects → Effects
  | [], fx => fx
  | (term, idx) :: rest, fx =>
    if !hit term then countMatchedNonRoutingTerms terminal rest fx
    else
      let fx := if term.hasCount then fx.record term.counter packetBytes else fx
      if idx = terminal then fx else countMatchedNonRoutingTerms terminal rest fx

/-- The loop of `evaluate_filter_ref_non_routing_counted_family`. -/
def nonRoutingLoop (countPolicy : NonRoutingCountPolicy) (policerNowNs : Option ℕ) :
    List (FilterTerm × ℕ) → FilterResult → Effects → FilterResult × Effects
  | [], acc, fx => (normalizeLogMatchAction acc, fx)
  | (term, idx) :: rest, acc, fx =>
    if !hit term then nonRoutingLoop countPolicy policerNowNs rest acc fx
    else if !term.routingInstance.isEmpty then
      (normalizeLogMatchAction { acc with deferredAtRoutingTerm := some idx }, fx)
    else
      let (alwaysCount, replayOnTerminalDeny) := countPolicy.counting
      let fx := if alwaysCount && term.hasCount then fx.record term.counter packetBytes else fx
      let (acc, fx) := mergeMatchedModifiers acc filter term policerNowNs packetBytes fx
      let acc := { acc with routingInstance := none }
      if !term.continueTerm then
        let fx := if replayOnTerminalDeny && term.action ≠ .accept
          then countMatchedNonRoutingTerms hit packetBytes idx filter.terms.zipIdx fx else fx
        (normalizeLogMatchAction { acc with action := term.action }, fx)
      else nonRoutingLoop countPolicy policerNowNs rest acc fx

/-- The loop of `evaluate_filter_ref_routing_instance_counted_family`. -/
def routingLoop (count : Bool) :
    List FilterTerm → Option FilterLogMatch → Effects → Option FilterRoutingInstanceResult × Effects
  | [], _, fx => (none, fx)
  | term :: rest, accLog, fx =>
    if !hit term then routingLoop count rest accLog fx
    else
      let fx := if count && term.hasCount then fx.record term.counter packetBytes else fx
      if term.continueTerm then routingLoop count rest ((filterLogMatch filter term).or accLog) fx
      else if term.routingInstance.isEmpty then (none, fx)
      else
        let accLog := (filterLogMatch filter term).or accLog
        (some ⟨term.routingInstance, term.log, term.action, filter.id, term.id,
          accLog.map fun lm => { lm with action := term.action }⟩, fx)

/-- The loop of `evaluate_filter_ref_log_match`, with the action it ends with. The branch
for a term with a routing instance does what the one after it does. -/
def logLoop (skipRoutingInstance : Bool) : List FilterTerm → Option FilterLogMatch → Option FilterLogMatch × FilterAction
  | [], accLog => (accLog, .accept)
  | term :: rest, accLog =>
    if !hit term then logLoop skipRoutingInstance rest accLog
    else if term.continueTerm then logLoop skipRoutingInstance rest ((filterLogMatch filter term).or accLog)
    else if skipRoutingInstance && !term.routingInstance.isEmpty then
      ((filterLogMatch filter term).or accLog, term.action)
    else ((filterLogMatch filter term).or accLog, term.action)

end

section

variable (filter : Filter) (p : Packet) (packetBytes : ℕ)

/-- `evaluate_filter_ref_counted`. -/
def evaluateFilterRefCounted (nowNs : Option ℕ) (fx : Effects) : FilterResult × Effects :=
  byFamily p (fun hit => countedLoop filter hit packetBytes nowNs filter.terms .default fx) (.default, fx)

/-- `evaluate_filter_ref_non_routing_counted`. -/
def evaluateFilterRefNonRoutingCounted (countPolicy : NonRoutingCountPolicy) (policerNowNs : Option ℕ) (fx : Effects) :
    FilterResult × Effects :=
  byFamily p (fun hit => nonRoutingLoop filter hit packetBytes countPolicy policerNowNs filter.terms.zipIdx .default fx)
    (.default, fx)

/-- `evaluate_filter_ref_routing_instance_maybe_counted`. -/
def evaluateFilterRefRoutingInstanceMaybeCounted (count : Bool) (fx : Effects) :
    Option FilterRoutingInstanceResult × Effects :=
  byFamily p (fun hit => routingLoop filter hit packetBytes count filter.terms none fx) (none, fx)

/-- `evaluate_filter_ref_routing_instance_event_counted`. -/
def evaluateFilterRefRoutingInstanceEventCounted (fx : Effects) : Option FilterRoutingInstanceResult × Effects :=
  evaluateFilterRefRoutingInstanceMaybeCounted filter p packetBytes true fx

/-- `evaluate_filter_ref_log_match`. -/
def evaluateFilterRefLogMatch (skipRoutingInstance : Bool) : Option FilterLogMatch :=
  if !filter.hasLogTerms then none
  else
    let (accLog, finalAction) := logLoop filter (termMatches p) skipRoutingInstance filter.terms none
    accLog.map fun lm => { lm with action := finalAction }

/-- The walk of the packet path for a filter that affects the route lookup: the action, the
routing instance and the effects. -/
def splitWalk (policerNowNs : Option ℕ) (fx : Effects) : FilterAction × Option String × Effects :=
  let (result, fx) := evaluateFilterRefNonRoutingCounted filter p packetBytes .onlyTerminalNonAccept policerNowNs fx
  if result.action = .accept then
    match evaluateFilterRefRoutingInstanceEventCounted filter p packetBytes fx with
    | (some routing, fx) => (routing.action, some routing.routingInstance, fx)
    | (none, fx) => (result.action, result.routingInstance, fx)
  else (result.action, result.routingInstance, fx)

end

/-! ## The terms a walk passes -/

/-- The terms that match, up to the first that does not fall through. -/
def reached (hit : FilterTerm → Bool) : List FilterTerm → List FilterTerm
  | [] => []
  | term :: rest =>
    if !hit term then reached hit rest
    else if term.continueTerm then term :: reached hit rest
    else [term]

/-- The first term that matches and does not fall through. -/
def terminal (hit : FilterTerm → Bool) (terms : List FilterTerm) : Option FilterTerm :=
  terms.find? fun term => hit term && !term.continueTerm

/-- The charges of the terms that count. -/
def charges (packetBytes : ℕ) (terms : List FilterTerm) : List (ℕ × ℕ) :=
  (terms.filter (·.hasCount)).map fun term => (term.counter, packetBytes)

/-- The log of the last term that logs. -/
def lastLog (filter : Filter) (accLog : Option FilterLogMatch) (terms : List FilterTerm) : Option FilterLogMatch :=
  terms.foldl (fun acc term => (filterLogMatch filter term).or acc) accLog

/-- The routing instance of the last term that has one. -/
def lastRouting (acc : Option String) (terms : List FilterTerm) : Option String :=
  terms.foldl (fun acc term => (modifier term.routingInstance).or acc) acc

section

variable {filter : Filter} {hit : FilterTerm → Bool} {packetBytes : ℕ} {term : FilterTerm} {rest terms : List FilterTerm}

theorem reached_miss (h : hit term = false) : reached hit (term :: rest) = reached hit rest := by
  simp [reached, h]

theorem reached_through (h : hit term = true) (hcontinue : term.continueTerm = true) :
    reached hit (term :: rest) = term :: reached hit rest := by
  simp [reached, h, hcontinue]

theorem reached_stop (h : hit term = true) (hcontinue : term.continueTerm = false) :
    reached hit (term :: rest) = [term] := by
  simp [reached, h, hcontinue]

theorem terminal_miss (h : hit term = false) : terminal hit (term :: rest) = terminal hit rest := by
  simp [terminal, h]

theorem terminal_through (hcontinue : term.continueTerm = true) :
    terminal hit (term :: rest) = terminal hit rest := by
  simp [terminal, hcontinue]

theorem terminal_stop (h : hit term = true) (hcontinue : term.continueTerm = false) :
    terminal hit (term :: rest) = some term := by
  simp [terminal, h, hcontinue]

theorem charges_cons (packetBytes : ℕ) (term : FilterTerm) (terms : List FilterTerm) (fx : Effects) :
    (if term.hasCount then fx.record term.counter packetBytes else fx).charged ++ charges packetBytes terms
      = fx.charged ++ charges packetBytes (term :: terms) := by
  cases hcount : term.hasCount <;> simp [charges, hcount, Effects.record]

theorem reached_subset : ∀ {terms : List FilterTerm} {t : FilterTerm}, t ∈ reached hit terms → t ∈ terms ∧ hit t = true := by
  intro terms t
  induction terms with
  | nil => exact fun h => absurd h List.not_mem_nil
  | cons term rest ih =>
    intro ht
    by_cases hhit : hit term = true
    · by_cases hcontinue : term.continueTerm = true
      · rw [reached_through hhit hcontinue] at ht
        rcases List.mem_cons.1 ht with rfl | ht
        · exact ⟨List.mem_cons_self, hhit⟩
        · exact ⟨List.mem_cons_of_mem _ (ih ht).1, (ih ht).2⟩
      · rw [reached_stop hhit (Bool.eq_false_of_not_eq_true hcontinue), List.mem_singleton] at ht
        subst ht
        exact ⟨List.mem_cons_self, hhit⟩
    · rw [reached_miss (Bool.eq_false_of_not_eq_true hhit)] at ht
      exact ⟨List.mem_cons_of_mem _ (ih ht).1, (ih ht).2⟩

end

/-! ## What each walk makes of them -/

section

variable {filter : Filter} {hit : FilterTerm → Bool} {packetBytes : ℕ}

theorem applyTermThreeColorPolicer_charged (term : FilterTerm) (nowNs : Option ℕ) (fx : Effects) :
    (applyTermThreeColorPolicer term nowNs packetBytes fx).2.charged = fx.charged := by
  unfold applyTermThreeColorPolicer
  split <;> rfl

/-- What of a result the walks share: the action, the routing instance and the log. -/
theorem mergeMatchedModifiers_spec (filter : Filter) (packetBytes : ℕ) (acc : FilterResult) (term : FilterTerm)
    (nowNs : Option ℕ) (fx : Effects) :
    let merged := mergeMatchedModifiers acc filter term nowNs packetBytes fx
    merged.1.action = acc.action ∧ merged.1.routingInstance = (modifier term.routingInstance).or acc.routingInstance
      ∧ merged.1.logMatch = (filterLogMatch filter term).or acc.logMatch ∧ merged.2.charged = fx.charged := by
  refine ⟨rfl, rfl, rfl, ?_⟩
  exact applyTermThreeColorPolicer_charged term nowNs fx

/-- The single walk. -/
theorem countedLoop_spec (filter : Filter) (hit : FilterTerm → Bool) (packetBytes : ℕ) (nowNs : Option ℕ) :
    ∀ (terms : List FilterTerm) (acc : FilterResult) (fx : Effects),
    let result := countedLoop filter hit packetBytes nowNs terms acc fx
    result.1.action = ((terminal hit terms).map (·.action)).getD acc.action
      ∧ result.1.routingInstance = lastRouting acc.routingInstance (reached hit terms)
      ∧ result.1.logMatch
        = (lastLog filter acc.logMatch (reached hit terms)).map (fun lm => { lm with action := result.1.action })
      ∧ result.2.charged = fx.charged ++ charges packetBytes (reached hit terms) := by
  intro terms
  induction terms with
  | nil =>
    intro acc fx
    exact ⟨rfl, rfl, rfl, by simp [countedLoop, reached, charges]⟩
  | cons term rest ih =>
    intro acc fx
    unfold countedLoop
    by_cases hhit : hit term = true
    · rw [if_neg (by simp [hhit])]
      obtain ⟨haction, hrouting, hlog, hcharged⟩ := mergeMatchedModifiers_spec filter packetBytes acc term nowNs (if term.hasCount then fx.record term.counter packetBytes else fx)
      dsimp only at haction hrouting hlog hcharged ⊢
      generalize mergeMatchedModifiers acc filter term nowNs packetBytes
        (if term.hasCount then fx.record term.counter packetBytes else fx) = merged at haction hrouting hlog hcharged ⊢
      obtain ⟨acc', fx'⟩ := merged
      dsimp only at haction hrouting hlog hcharged ⊢
      by_cases hcontinue : term.continueTerm = true
      · rw [if_neg (by simp [hcontinue]), reached_through hhit hcontinue, terminal_through hcontinue]
        obtain ⟨h₁, h₂, h₃, h₄⟩ := ih acc' fx'
        rw [haction] at h₁
        rw [hrouting] at h₂
        rw [hlog] at h₃
        rw [hcharged, charges_cons] at h₄
        exact ⟨h₁, h₂, h₃, h₄⟩
      · have hstop := Bool.eq_false_of_not_eq_true hcontinue
        rw [if_pos (by simp [hstop]), reached_stop hhit hstop, terminal_stop hhit hstop]
        refine ⟨rfl, hrouting, ?_, ?_⟩
        · simp only [normalizeLogMatchAction, hlog]
          rfl
        · have hlast := charges_cons packetBytes term [] fx
          rw [← hcharged] at hlast
          simpa [charges] using hlast
    · have hmiss := Bool.eq_false_of_not_eq_true hhit
      rw [if_pos (by simp [hmiss]), reached_miss hmiss, terminal_miss hmiss]
      exact ih acc fx

/-- The walk for the routing instance: it charges what the single walk charges, and finds
the routing instance of the term that walk ends with. -/
theorem routingLoop_spec (filter : Filter) (hit : FilterTerm → Bool) (packetBytes : ℕ) :
    ∀ (terms : List FilterTerm) (accLog : Option FilterLogMatch) (fx : Effects),
    let result := routingLoop filter hit packetBytes true terms accLog fx
    result.1.map (fun r => (r.action, r.routingInstance))
        = ((terminal hit terms).filter (!·.routingInstance.isEmpty)).map (fun t => (t.action, t.routingInstance))
      ∧ result.2.charged = fx.charged ++ charges packetBytes (reached hit terms) := by
  intro terms
  induction terms with
  | nil =>
    intro accLog fx
    exact ⟨rfl, by simp [routingLoop, reached, charges]⟩
  | cons term rest ih =>
    intro accLog fx
    unfold routingLoop
    by_cases hhit : hit term = true
    · rw [if_neg (by simp [hhit])]
      dsimp only
      rw [Bool.true_and]
      by_cases hcontinue : term.continueTerm = true
      · rw [if_pos hcontinue, reached_through hhit hcontinue, terminal_through hcontinue]
        obtain ⟨h₁, h₂⟩ := ih ((filterLogMatch filter term).or accLog)
          (if term.hasCount then fx.record term.counter packetBytes else fx)
        rw [charges_cons] at h₂
        exact ⟨h₁, h₂⟩
      · have hstop := Bool.eq_false_of_not_eq_true hcontinue
        have hlast := charges_cons packetBytes term [] fx
        rw [show charges packetBytes [] = [] from rfl, List.append_nil] at hlast
        rw [if_neg hcontinue, reached_stop hhit hstop, terminal_stop hhit hstop]
        by_cases hempty : term.routingInstance.isEmpty = true
        · rw [if_pos hempty]
          refine ⟨?_, hlast⟩
          simp only [Option.filter_some, hempty]
          rfl
        · rw [if_neg hempty]
          refine ⟨?_, hlast⟩
          simp only [Option.filter_some, Bool.eq_false_of_not_eq_true hempty]
          rfl
    · have hmiss := Bool.eq_false_of_not_eq_true hhit
      rw [if_pos (by simp [hmiss]), reached_miss hmiss, terminal_miss hmiss]
      exact ih accLog fx

/-- The walk for the log. -/
theorem logLoop_spec (filter : Filter) (hit : FilterTerm → Bool) (skipRoutingInstance : Bool) : ∀ (terms : List FilterTerm) (accLog : Option FilterLogMatch),
    logLoop filter hit skipRoutingInstance terms accLog
      = (lastLog filter accLog (reached hit terms), ((terminal hit terms).map (·.action)).getD .accept) := by
  intro terms
  induction terms with
  | nil => exact fun _ => rfl
  | cons term rest ih =>
    intro accLog
    unfold logLoop
    by_cases hhit : hit term = true
    · rw [if_neg (by simp [hhit])]
      by_cases hcontinue : term.continueTerm = true
      · rw [if_pos hcontinue, reached_through hhit hcontinue, terminal_through hcontinue, ih]
        rfl
      · have hstop := Bool.eq_false_of_not_eq_true hcontinue
        rw [if_neg hcontinue, ite_self, reached_stop hhit hstop, terminal_stop hhit hstop]
        rfl
    · have hmiss := Bool.eq_false_of_not_eq_true hhit
      rw [if_pos (by simp [hmiss]), reached_miss hmiss, terminal_miss hmiss]
      exact ih accLog

/-- The place of the term a walk ends with. -/
def terminalAt (hit : FilterTerm → Bool) (terms : List (FilterTerm × ℕ)) : Option (FilterTerm × ℕ) :=
  terms.find? fun entry => hit entry.1 && !entry.1.continueTerm

theorem terminalAt_map (hit : FilterTerm → Bool) : ∀ (terms : List FilterTerm) (k : ℕ),
    (terminalAt hit (terms.zipIdx k)).map Prod.fst = terminal hit terms := by
  intro terms
  induction terms with
  | nil => exact fun _ => rfl
  | cons term rest ih =>
    intro k
    unfold terminalAt terminal
    rw [List.zipIdx_cons, List.find?_cons, List.find?_cons]
    cases hcond : (hit term && !term.continueTerm) with
    | true => rfl
    | false => exact ih (k + 1)

/-- Counting anew up to the place of the term a walk ends with charges what the single walk
charges. -/
theorem countMatchedNonRoutingTerms_spec (hit : FilterTerm → Bool) (packetBytes : ℕ) :
    ∀ (terms : List FilterTerm) (k j : ℕ) (t : FilterTerm) (fx : Effects),
    terminalAt hit (terms.zipIdx k) = some (t, j) →
    (countMatchedNonRoutingTerms hit packetBytes j (terms.zipIdx k) fx).charged
      = fx.charged ++ charges packetBytes (reached hit terms) := by
  intro terms
  induction terms with
  | nil => exact fun k j t fx h => by simp [terminalAt] at h
  | cons term rest ih =>
    intro k j t fx h
    have hlater : terminalAt hit (rest.zipIdx (k + 1)) = some (t, j) → k ≠ j := by
      intro hrest
      have hmem := List.mem_of_find?_eq_some hrest
      have := (List.mem_zipIdx hmem).1
      omega
    rw [List.zipIdx_cons] at h ⊢
    unfold terminalAt at h
    unfold countMatchedNonRoutingTerms
    by_cases hhit : hit term = true
    · rw [if_neg (by simp [hhit])]
      dsimp only
      by_cases hcontinue : term.continueTerm = true
      · rw [List.find?_cons_of_neg (by simp [hcontinue])] at h
        rw [if_neg (hlater h), reached_through hhit hcontinue, ih _ _ _ _ h, charges_cons]
      · have hstop := Bool.eq_false_of_not_eq_true hcontinue
        rw [List.find?_cons_of_pos (by simp [hhit, hstop]), Option.some_inj] at h
        have hlast := charges_cons packetBytes term [] fx
        rw [show charges packetBytes [] = [] from rfl, List.append_nil] at hlast
        rw [if_pos (Prod.mk.inj h).2, reached_stop hhit hstop]
        exact hlast
    · have hmiss := Bool.eq_false_of_not_eq_true hhit
      rw [List.find?_cons_of_neg (by simp [hmiss])] at h
      rw [if_pos (by simp [hmiss]), reached_miss hmiss]
      exact ih _ _ _ _ h

/-- No term that falls through has a routing instance. -/
def FallThroughPlain (terms : List FilterTerm) : Prop :=
  ∀ term ∈ terms, term.continueTerm = true → term.routingInstance.isEmpty = true

/-- The walk that stops at a routing instance: it ends with the term the single walk ends
with, unless that has one, and counts anew where it denies. -/
theorem nonRoutingLoop_spec (filter : Filter) (hit : FilterTerm → Bool) (packetBytes : ℕ) (nowNs : Option ℕ) :
    ∀ (terms : List FilterTerm) (k : ℕ) (acc : FilterResult) (fx : Effects), FallThroughPlain terms → acc.routingInstance = none →
    let result := nonRoutingLoop filter hit packetBytes .onlyTerminalNonAccept nowNs (terms.zipIdx k) acc fx
    result.1.routingInstance = none
      ∧ (∀ t j, terminalAt hit (terms.zipIdx k) = some (t, j) → t.routingInstance.isEmpty = true →
        result.1.action = t.action ∧ ∃ fx' : Effects, fx'.charged = fx.charged ∧ result.2
          = if t.action ≠ .accept then countMatchedNonRoutingTerms hit packetBytes j filter.terms.zipIdx fx' else fx')
      ∧ ((∀ t, terminal hit terms = some t → t.routingInstance.isEmpty = false) →
        result.1.action = acc.action ∧ result.2.charged = fx.charged) := by
  intro terms
  induction terms with
  | nil =>
    intro k acc fx _ hnone
    exact ⟨hnone, fun t j h => by simp [terminalAt] at h, fun _ => ⟨rfl, rfl⟩⟩
  | cons term rest ih =>
    intro k acc fx hplain hnone
    have hrest : FallThroughPlain rest := fun u hu => hplain u (List.mem_cons_of_mem _ hu)
    have hat : terminalAt hit ((term, k) :: rest.zipIdx (k + 1))
        = if hit term && !term.continueTerm then some (term, k) else terminalAt hit (rest.zipIdx (k + 1)) := by
      unfold terminalAt
      rw [List.find?_cons]
      cases hit term && !term.continueTerm <;> rfl
    rw [List.zipIdx_cons]
    unfold nonRoutingLoop
    by_cases hhit : hit term = true
    · rw [if_neg (by simp [hhit])]
      by_cases hempty : term.routingInstance.isEmpty = true
      · rw [if_neg (by simp [hempty])]
        obtain ⟨haction, -, -, hcharged⟩ :=
          mergeMatchedModifiers_spec filter packetBytes acc term nowNs fx
        simp only [NonRoutingCountPolicy.counting, Bool.false_and, Bool.true_and, if_false, Bool.false_eq_true]
        generalize mergeMatchedModifiers acc filter term nowNs packetBytes fx = merged at haction hcharged ⊢
        obtain ⟨acc', fx'⟩ := merged
        dsimp only at haction hcharged ⊢
        by_cases hcontinue : term.continueTerm = true
        · obtain ⟨h₁, h₂, h₃⟩ := ih (k + 1) { acc' with routingInstance := none } fx' hrest rfl
          rw [if_neg (by simp [hcontinue]), hat, if_neg (by simp [hcontinue]), terminal_through hcontinue]
          rw [hcharged] at h₂ h₃
          rw [← haction]
          exact ⟨h₁, h₂, h₃⟩
        · have hstop := Bool.eq_false_of_not_eq_true hcontinue
          have hend : terminalAt hit ((term, k) :: rest.zipIdx (k + 1)) = some (term, k) := by
            rw [hat, if_pos (by simp [hhit, hstop])]
          rw [if_pos (by simp [hstop]), hend, terminal_stop hhit hstop]
          refine ⟨rfl, ?_, fun hsteered => ?_⟩
          · rintro t j heq -
            obtain ⟨rfl, rfl⟩ := Prod.mk.inj (Option.some_inj.1 heq)
            exact ⟨rfl, fx', hcharged, by simp only [decide_eq_true_eq]⟩
          · exact absurd (hsteered term rfl) (by simp [hempty])
      · -- a term with a routing instance does not fall through
        have hstop : term.continueTerm = false := by
          by_contra hcontinue
          exact hempty (hplain term List.mem_cons_self (Bool.eq_true_of_not_eq_false hcontinue))
        rw [if_pos (by simp [hempty]), hat, if_pos (by simp [hhit, hstop])]
        refine ⟨hnone, ?_, fun _ => ⟨rfl, rfl⟩⟩
        rintro t j heq hplainEnd
        obtain ⟨rfl, rfl⟩ := Prod.mk.inj (Option.some_inj.1 heq)
        exact absurd hplainEnd hempty
    · have hmiss := Bool.eq_false_of_not_eq_true hhit
      rw [if_pos (by simp [hmiss]), hat, if_neg (by simp [hmiss]), terminal_miss hmiss]
      exact ih (k + 1) acc fx hrest hnone

/-- Where nothing that falls through steers, the routing instance is that of the last term. -/
theorem lastRouting_reached : ∀ (terms : List FilterTerm) (acc : Option String), FallThroughPlain terms →
    lastRouting acc (reached hit terms) = ((terminal hit terms).bind fun t => modifier t.routingInstance).or acc := by
  intro terms
  induction terms with
  | nil => exact fun _ _ => rfl
  | cons term rest ih =>
    intro acc hplain
    have hrest : FallThroughPlain rest := fun u hu => hplain u (List.mem_cons_of_mem _ hu)
    by_cases hhit : hit term = true
    · by_cases hcontinue : term.continueTerm = true
      · have hnone : modifier term.routingInstance = none := if_pos (hplain term List.mem_cons_self hcontinue)
        rw [reached_through hhit hcontinue, terminal_through hcontinue, lastRouting, List.foldl_cons, hnone,
          Option.none_or]
        exact ih acc hrest
      · have hstop := Bool.eq_false_of_not_eq_true hcontinue
        rw [reached_stop hhit hstop, terminal_stop hhit hstop]
        rfl
    · have hmiss := Bool.eq_false_of_not_eq_true hhit
      rw [reached_miss hmiss, terminal_miss hmiss]
      exact ih acc hrest

theorem lastLog_none (hnone : ∀ term ∈ filter.terms, term.log = false) :
    lastLog filter none (reached hit filter.terms) = none := by
  have hfold : ∀ terms : List FilterTerm, (∀ term ∈ terms, term.log = false) → lastLog filter none terms = none := by
    intro terms
    induction terms with
    | nil => exact fun _ => rfl
    | cons term rest ih =>
      intro h
      have hfirst : filterLogMatch filter term = none := if_neg (by simp [h term List.mem_cons_self])
      rw [lastLog, List.foldl_cons, hfirst]
      exact ih fun u hu => h u (List.mem_cons_of_mem _ hu)
  exact hfold _ fun term hterm => hnone term (reached_subset hterm).1

/-! ### A packet that no term matches -/

theorem countedLoop_miss (nowNs : Option ℕ) (acc : FilterResult) (fx : Effects) : ∀ terms : List FilterTerm,
    countedLoop filter (fun _ => false) packetBytes nowNs terms acc fx = (normalizeLogMatchAction acc, fx) := by
  intro terms
  induction terms with
  | nil => rfl
  | cons term rest ih => exact ih

theorem nonRoutingLoop_miss (countPolicy : NonRoutingCountPolicy) (nowNs : Option ℕ) (acc : FilterResult) (fx : Effects) :
    ∀ terms : List (FilterTerm × ℕ),
      nonRoutingLoop filter (fun _ => false) packetBytes countPolicy nowNs terms acc fx
        = (normalizeLogMatchAction acc, fx) := by
  intro terms
  induction terms with
  | nil => rfl
  | cons term rest ih => exact ih

theorem routingLoop_miss (count : Bool) (accLog : Option FilterLogMatch) (fx : Effects) : ∀ terms : List FilterTerm,
    routingLoop filter (fun _ => false) packetBytes count terms accLog fx = (none, fx) := by
  intro terms
  induction terms with
  | nil => rfl
  | cons term rest ih => exact ih

end

/-! ## The walks agree -/

section

variable (filter : Filter) (p : Packet) (packetBytes : ℕ)

theorem evaluateFilterRefCounted_eq (nowNs : Option ℕ) (fx : Effects) : evaluateFilterRefCounted filter p packetBytes nowNs fx
    = countedLoop filter (termMatches p) packetBytes nowNs filter.terms .default fx :=
  byFamily_eq p (countedLoop_miss nowNs .default fx filter.terms)

theorem evaluateFilterRefNonRoutingCounted_eq (countPolicy : NonRoutingCountPolicy) (nowNs : Option ℕ) (fx : Effects) :
    evaluateFilterRefNonRoutingCounted filter p packetBytes countPolicy nowNs fx
      = nonRoutingLoop filter (termMatches p) packetBytes countPolicy nowNs filter.terms.zipIdx .default fx :=
  byFamily_eq p (nonRoutingLoop_miss countPolicy nowNs .default fx filter.terms.zipIdx)

theorem evaluateFilterRefRoutingInstanceEventCounted_eq (fx : Effects) :
    evaluateFilterRefRoutingInstanceEventCounted filter p packetBytes fx
      = routingLoop filter (termMatches p) packetBytes true filter.terms none fx := by
  unfold evaluateFilterRefRoutingInstanceEventCounted evaluateFilterRefRoutingInstanceMaybeCounted
  exact byFamily_eq p (routingLoop_miss true none fx filter.terms)

/-- The walk of the packet path, over the terms it passes. -/
theorem splitWalk_spec (hplain : FallThroughPlain filter.terms) (nowNs : Option ℕ) (fx : Effects) :
    let split := splitWalk filter p packetBytes nowNs fx
    split.1 = ((terminal (termMatches p) filter.terms).map (·.action)).getD .accept
      ∧ split.2.1 = (terminal (termMatches p) filter.terms).bind (fun t => modifier t.routingInstance)
      ∧ split.2.2.charged = fx.charged ++ charges packetBytes (reached (termMatches p) filter.terms) := by
  have hterminal := terminalAt_map (termMatches p) filter.terms 0
  have hanew := countMatchedNonRoutingTerms_spec (termMatches p) packetBytes filter.terms 0
  obtain ⟨hrouting, hend, hsteer⟩ :=
    nonRoutingLoop_spec filter (termMatches p) packetBytes nowNs filter.terms 0 .default fx hplain rfl
  unfold splitWalk
  rw [evaluateFilterRefNonRoutingCounted_eq]
  generalize nonRoutingLoop filter (termMatches p) packetBytes .onlyTerminalNonAccept nowNs filter.terms.zipIdx .default fx
    = first at hrouting hend hsteer ⊢
  obtain ⟨result, fx₁⟩ := first
  obtain ⟨hfound, hcharged⟩ := routingLoop_spec filter (termMatches p) packetBytes filter.terms none fx₁
  dsimp only at hrouting hend hsteer hfound hcharged ⊢
  rw [evaluateFilterRefRoutingInstanceEventCounted_eq]
  generalize routingLoop filter (termMatches p) packetBytes true filter.terms none fx₁ = second at hfound hcharged ⊢
  obtain ⟨found, fx₂⟩ := second
  cases hat : terminalAt (termMatches p) filter.terms.zipIdx with
  | none =>
    rw [hat, Option.map_none] at hterminal
    rw [← hterminal] at hfound hsteer ⊢
    obtain ⟨haction, hsame⟩ := hsteer (by simp)
    obtain rfl : found = none := by simpa using hfound
    rw [haction, if_pos (show FilterResult.default.action = .accept from rfl)]
    exact ⟨rfl, hrouting, by rw [hcharged, hsame]⟩
  | some entry =>
    obtain ⟨t, j⟩ := entry
    rw [hat, Option.map_some] at hterminal
    rw [← hterminal] at hfound hsteer ⊢
    by_cases hempty : t.routingInstance.isEmpty = true
    · have hnone : modifier t.routingInstance = none := if_pos hempty
      obtain ⟨haction, fx', hsame, heffects⟩ := hend t j hat hempty
      rw [haction]
      by_cases haccept : t.action = .accept
      · -- the walk for the routing instance counts, and finds none
        rw [if_neg (not_not_intro haccept)] at heffects
        obtain rfl : found = none := by
          rw [Option.filter_some, if_neg (by simp [hempty])] at hfound
          simpa using hfound
        rw [if_pos haccept, Option.bind_some, hnone]
        exact ⟨rfl, hrouting, by rw [hcharged, heffects, hsame]⟩
      · rw [if_pos haccept] at heffects
        rw [if_neg haccept, Option.bind_some, hnone]
        exact ⟨rfl, hrouting, by rw [heffects, hanew j t fx' hat, hsame]⟩
    · -- the walk was stopped, and the other ends with the same term
      have hsome : modifier t.routingInstance = some t.routingInstance := if_neg hempty
      obtain ⟨haction, hsame⟩ := hsteer fun u hu => Option.some_inj.1 hu ▸ Bool.eq_false_of_not_eq_true hempty
      rw [Option.filter_some, if_pos (by simp [Bool.eq_false_of_not_eq_true hempty])] at hfound
      obtain ⟨routing, rfl, hpair⟩ := Option.map_eq_some_iff.1 hfound
      obtain ⟨hroutingAction, hinstance⟩ := Prod.mk.inj hpair
      rw [haction, if_pos (show FilterResult.default.action = .accept from rfl), Option.bind_some, hsome]
      exact ⟨hroutingAction, congrArg some hinstance, by rw [hcharged, hsame]⟩

/-- The walk for the log reports the log of the single walk. -/
theorem evaluateFilterRefLogMatch_eq (skipRoutingInstance : Bool) (nowNs : Option ℕ) (fx : Effects) :
    evaluateFilterRefLogMatch filter p skipRoutingInstance
      = (evaluateFilterRefCounted filter p packetBytes nowNs fx).1.logMatch := by
  obtain ⟨haction, -, hlog, -⟩ := countedLoop_spec filter (termMatches p) packetBytes nowNs filter.terms .default fx
  rw [evaluateFilterRefCounted_eq, hlog, haction]
  unfold evaluateFilterRefLogMatch
  rw [logLoop_spec]
  cases hlogs : filter.hasLogTerms with
  | true => rfl
  | false =>
    have hnone : ∀ term ∈ filter.terms, term.log = false := by
      have heq := filter.log_eq
      rw [hlogs] at heq
      simpa using heq.symm
    rw [show FilterResult.default.logMatch = none from rfl, lastLog_none hnone]
    rfl

/-- For a filter in which nothing that falls through has a routing instance, the walk of the
packet path charges the counters of the single walk, with its action and its routing
instance, and the walk for the log reports its log. -/
theorem splitWalk_eq_full (hplain : FallThroughPlain filter.terms) (nowNs policerNowNs : Option ℕ) (fx : Effects) :
    let full := evaluateFilterRefCounted filter p packetBytes nowNs fx
    let split := splitWalk filter p packetBytes policerNowNs fx
    split.2.2.charged = full.2.charged
      ∧ full.2.charged = fx.charged ++ charges packetBytes (reached (termMatches p) filter.terms)
      ∧ (split.1, split.2.1) = (full.1.action, full.1.routingInstance)
      ∧ ∀ skipRoutingInstance, evaluateFilterRefLogMatch filter p skipRoutingInstance = full.1.logMatch := by
  intro full split
  obtain ⟨haction, hrouting, -, hcharged⟩ :=
    countedLoop_spec filter (termMatches p) packetBytes nowNs filter.terms .default fx
  obtain ⟨haction', hrouting', hcharged'⟩ := splitWalk_spec filter p packetBytes hplain policerNowNs fx
  rw [← evaluateFilterRefCounted_eq] at haction hrouting hcharged
  rw [lastRouting_reached _ _ hplain, show FilterResult.default.routingInstance = none from rfl, Option.or_none]
    at hrouting
  refine ⟨hcharged'.trans hcharged.symm, hcharged, ?_, fun skip => ?_⟩
  · exact Prod.ext (haction'.trans haction.symm) (hrouting'.trans hrouting.symm)
  · exact evaluateFilterRefLogMatch_eq filter p packetBytes skip nowNs fx

end

/-! ### A filter that counts and steers -/

/-- A term that matches every packet and accepts it. -/
def plainTerm (id : UInt32) (counter : ℕ) : FilterTerm where
  id := id
  sourceV4 := []
  sourceV6 := []
  destV4 := []
  destV6 := []
  sourceAddrConstrained := false
  destAddrConstrained := false
  sourceExcept := false
  destExcept := false
  protocolBitmap := Vector.replicate 4 0
  protocolMatchEnabled := false
  sourcePorts := .any
  destPorts := .any
  sourcePortConstrained := false
  destPortConstrained := false
  sourcePortExcept := false
  destPortExcept := false
  dscpBitmap := 0
  dscpMatchEnabled := false
  tcpFlagsMask := none
  tcpFlagsForbidden := none
  isFragment := false
  icmpTypeBitmap := Vector.replicate 4 0
  icmpTypeMatchEnabled := false
  icmpCodeBitmap := Vector.replicate 4 0
  icmpCodeMatchEnabled := false
  flexEnabled := false
  flexOffset := 0
  flexLength := 0
  flexValue := 0
  flexMask := 0
  flexMatchStart := .layer3
  action := .accept
  continueTerm := false
  hasCount := false
  log := false
  policerName := ""
  threeColorPolicer := none
  routingInstance := ""
  forwardingClass := ""
  dscpRewrite := none
  counter := counter

/-- The filter of a list of terms. -/
def compiled (id : UInt32) (terms : List FilterTerm) : Filter := ⟨id, terms, _, _, _, rfl, rfl, rfl⟩

/-- Count, log and go on; then count and steer. -/
def steeringFilter : Filter := compiled 0
  [{ plainTerm 0 0 with hasCount := true, log := true, continueTerm := true },
    { plainTerm 1 1 with hasCount := true, routingInstance := "vr1" }]

/-- A TCP packet to port 80. -/
def webPacket : Packet where
  srcIp := .v4 0x0A000001
  dstIp := .v4 0x0A000002
  protocol := protoTcp
  srcPort := 40000
  dstPort := 80
  dscp := 0
  extra := { TermMatchExtra.default with l4Present := true }

/-- No charges yet, and policers that let everything pass. -/
def idle : Effects where
  charged := []
  policers := fun _ =>
    { state := ⟨⟨.singleRate, true, 1, 1, 0, 1, ⟨⟨none, false⟩, ⟨none, false⟩, ⟨none, false⟩⟩⟩, 1, 1, 0, 0⟩
      counters := ⟨⟨0, 0⟩, ⟨0, 0⟩, ⟨0, 0⟩, ⟨0, 0⟩⟩ }

theorem steeringFilter_agrees :
    (splitWalk steeringFilter webPacket 100 none idle).2.2.charged = [(0, 100), (1, 100)]
      ∧ (splitWalk steeringFilter webPacket 100 none idle).2.1 = some "vr1"
      ∧ evaluateFilterRefLogMatch steeringFilter webPacket false = some ⟨0, 0, .accept⟩ := by
  have hplain : FallThroughPlain steeringFilter.terms := by
    unfold FallThroughPlain
    decide
  obtain ⟨hcharged, -, hverdict, hlog⟩ := splitWalk_eq_full steeringFilter webPacket 100 hplain none none idle
  refine ⟨hcharged.trans (by decide +kernel), (Prod.mk.inj hverdict).2.trans (by decide +kernel), ?_⟩
  exact (hlog false).trans (by decide +kernel)

end Xpf.Filters
