/-
`Loop.lean` -- the loop the models below are written with.

The source is full of `for`/`while` loops that leave through several exits. Each
of them is one step function `σ → σ ⊕ β` here: `inl` goes round once more with the
new loop state, `inr` leaves with a value. `run` iterates the step with as much
fuel as a measure of the state gives, so it stays structurally recursive and the
kernel can evaluate it.

The whole reasoning interface is four lemmas. `run_inr` and `run_inl` are the two
equations of the loop (the second needs the measure to go down, which is the
termination argument of the source loop), `run_induct` is its invariant rule and
`run_rel` the one for two loops in lockstep. Nothing here mentions a program.
-/
import Mathlib.Logic.Basic
import Mathlib.Data.Nat.Notation

set_option autoImplicit false

namespace Xpf.Loop

variable {σ β : Type*}

/-- `fuel` rounds of a step function; `dflt` is the value of a loop that has run
out of them, which `run` never reaches when its measure goes down. -/
def loop (step : σ → σ ⊕ β) (dflt : σ → β) : ℕ → σ → β
  | 0, s => dflt s
  | n + 1, s =>
    match step s with
    | .inl s' => loop step dflt n s'
    | .inr b => b

/-- The loop run to its exit, with the measure of the start state as fuel. -/
def run (step : σ → σ ⊕ β) (dflt : σ → β) (m : σ → ℕ) (s : σ) : β :=
  loop step dflt (m s + 1) s

section

variable {step : σ → σ ⊕ β} {dflt : σ → β} {m : σ → ℕ}

/-- More fuel than the measure asks for changes nothing. -/
theorem loop_fuel (hdec : ∀ s s', step s = .inl s' → m s' < m s) :
    ∀ (n k : ℕ) (s : σ), m s < n → m s < k → loop step dflt n s = loop step dflt k s := by
  intro n
  induction n with
  | zero => intro k s hn _; omega
  | succ n ih =>
    intro k s _ hk
    obtain ⟨k, rfl⟩ : ∃ j, k = j + 1 := ⟨k - 1, by omega⟩
    simp only [loop]
    cases hs : step s with
    | inr b => rfl
    | inl s' =>
      have hlt := hdec s s' hs
      exact ih k s' (by omega) (by omega)

/-- The loop leaves as soon as its step does. -/
theorem run_inr {s : σ} {b : β} (h : step s = .inr b) : run step dflt m s = b := by
  simp only [run, loop, h]

/-- One round of the loop. -/
theorem run_inl (hdec : ∀ s s', step s = .inl s' → m s' < m s) {s s' : σ}
    (h : step s = .inl s') : run step dflt m s = run step dflt m s' := by
  have hlt := hdec s s' h
  rw [run, loop, h]
  exact loop_fuel hdec (m s) (m s' + 1) s' hlt (by omega)

/-- **The invariant rule.** A relation between a loop state and the value the loop
leaves with holds of the whole run when it holds at every exit and every round
carries it backwards. -/
theorem run_induct (hdec : ∀ s s', step s = .inl s' → m s' < m s)
    {motive : σ → β → Prop}
    (exit : ∀ s b, step s = .inr b → motive s b)
    (round : ∀ s s' b, step s = .inl s' → motive s' b → motive s b) :
    ∀ s, motive s (run step dflt m s) := by
  intro s
  induction hn : m s using Nat.strongRecOn generalizing s with
  | ind n ih =>
    cases hs : step s with
    | inr b => rw [run_inr hs]; exact exit s b hs
    | inl s' =>
      have hlt := hdec s s' hs
      rw [run_inl hdec hs]
      exact round s s' _ hs (ih (m s') (by omega) s' rfl)

/-- **The lockstep rule.** Two runs of a loop from related states leave with related
values when every round keeps the states related. -/
theorem run_rel (hdec : ∀ s s', step s = .inl s' → m s' < m s) {R : σ → σ → Prop}
    {Q : β → β → Prop}
    (hstep : ∀ s t, R s t →
      (∃ s' t', step s = .inl s' ∧ step t = .inl t' ∧ R s' t')
        ∨ ∃ b c, step s = .inr b ∧ step t = .inr c ∧ Q b c) :
    ∀ s t, R s t → Q (run step dflt m s) (run step dflt m t) := by
  intro s
  induction hn : m s using Nat.strongRecOn generalizing s with
  | ind n ih =>
    intro t hR
    rcases hstep s t hR with ⟨s', t', hs, ht, hR'⟩ | ⟨b, c, hs, ht, hQ⟩
    · have hlt := hdec s s' hs
      rw [run_inl hdec hs, run_inl hdec ht]
      exact ih (m s') (by omega) s' rfl t' hR'
    · rw [run_inr hs, run_inr ht]
      exact hQ

end

end Xpf.Loop
