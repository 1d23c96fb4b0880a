/-
Runs of a state machine: a step function folded over the inputs it is given. What is said
of every reachable state is proved of the start and carried over one step, for all steps
(`run_invariant`) or for those that meet a condition along the run (`run_invariant_of`).
-/
import Mathlib.Data.List.Induction
import Mathlib.Order.Defs.PartialOrder
import Mathlib.Tactic.Common

set_option autoImplicit false

namespace Xpf.Runs

variable {σ ι : Type*}

/-- The state after a list of inputs. -/
def run (step : σ → ι → σ) (s : σ) (inputs : List ι) : σ := inputs.foldl step s

/-- Every step of a run meets a condition on the state it starts in and its input. -/
def EachStep (step : σ → ι → σ) (s : σ) (C : σ → ι → Prop) (inputs : List ι) : Prop :=
  ∀ before i, before ++ [i] <+: inputs → C (run step s before) i

section

variable {step : σ → ι → σ} {s : σ}

theorem run_append (before after : List ι) :
    run step s (before ++ after) = run step (run step s before) after := List.foldl_append

theorem run_snoc (before : List ι) (i : ι) :
    run step s (before ++ [i]) = step (run step s before) i := by
  rw [run_append]
  rfl

/-- **The invariant rule.** -/
theorem run_invariant {P : σ → Prop} (start : P s) (keep : ∀ s i, P s → P (step s i)) (inputs : List ι) :
    P (run step s inputs) := by
  induction inputs using List.reverseRecOn with
  | nil => exact start
  | append_singleton before i ih =>
    rw [run_snoc]
    exact keep _ i ih

theorem EachStep.mono {C : σ → ι → Prop} {inputs before : List ι} (h : EachStep step s C inputs)
    (hpre : before <+: inputs) : EachStep step s C before :=
  fun b i hb => h b i (hb.trans hpre)

theorem EachStep.cons {C : σ → ι → Prop} {i : ι} {rest : List ι} (hi : C s i)
    (hrest : EachStep step (step s i) C rest) : EachStep step s C (i :: rest) := by
  intro before j hpre
  cases before with
  | nil =>
    obtain rfl : j = i := by simpa using hpre
    exact hi
  | cons b before =>
    rw [List.cons_append, List.cons_prefix_cons] at hpre
    obtain ⟨rfl, hpre⟩ := hpre
    exact hrest before j hpre

theorem EachStep.nil {C : σ → ι → Prop} : EachStep step s C [] := by
  intro before j hpre
  simp at hpre

/-- The invariant rule for runs whose steps meet a condition. -/
theorem run_invariant_of {P : σ → Prop} {C : σ → ι → Prop} (start : P s)
    (keep : ∀ s i, C s i → P s → P (step s i)) {inputs : List ι} (h : EachStep step s C inputs) :
    P (run step s inputs) := by
  induction inputs using List.reverseRecOn with
  | nil => exact start
  | append_singleton before i ih =>
    rw [run_snoc]
    exact keep _ i (h before i (List.prefix_refl _)) (ih (h.mono (List.prefix_append before [i])))

/-- A quantity no step lowers is not lowered along a run. -/
theorem run_mono {α : Type*} [Preorder α] {q : σ → α} (hstep : ∀ s i, q s ≤ q (step s i)) (inputs : List ι) :
    q s ≤ q (run step s inputs) :=
  run_invariant (P := fun t => q s ≤ q t) le_rfl (fun t i h => le_trans h (hstep t i)) inputs

end

end Xpf.Runs
