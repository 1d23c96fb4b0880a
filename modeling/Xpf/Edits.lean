/-
`Edits.lean` -- programs that edit a state in place and may decline.

An in-place rewrite takes a buffer by mutable reference and returns an option. When it
declines, what it had written by then is still in the buffer, so the state comes back in
both cases: `σ → Option α × σ`. That is what makes it a question whether a declined
program has left its buffer alone, and the rules for it are here.

| | says |
|---|---|
| `Ends m s Q` | `m` does not decline at `s`, and what it returns and leaves satisfies `Q` |
| `Keeps R m s` | whatever `m` does at `s`, it leaves a state that `R` relates to `s` |
| `Intact m s` | if `m` declines at `s`, it leaves `s` |

A transaction is a row of `check`s, which read only, followed by a step that writes only
after its own checks, followed by steps that end: `Intact.check_bind` and `Intact.bind`.
-/
import Mathlib.Data.Option.Basic
import Mathlib.Tactic.SplitIfs

set_option autoImplicit false

namespace Xpf.Edits

/-- A program that edits a state in place and may decline. -/
structure Edit (σ α : Type) where
  run : σ → Option α × σ

namespace Edit

variable {σ τ α β : Type}

instance : Monad (Edit σ) where
  pure a := ⟨fun s => (some a, s)⟩
  bind m f := ⟨fun s =>
    match m.run s with
    | (none, s') => (none, s')
    | (some a, s') => (f a).run s'⟩

/-- A value read off the state. -/
def read (f : σ → α) : Edit σ α := ⟨fun s => (some (f s), s)⟩

/-- A value read off the state, or a decline: `f(&state)?`. -/
def check (f : σ → Option α) : Edit σ α := ⟨fun s => (f s, s)⟩

/-- A condition on the state, or a decline. -/
def require (p : σ → Prop) [DecidablePred p] : Edit σ Unit :=
  check fun s => if p s then some () else none

/-- An edit that cannot decline. -/
def modify (f : σ → σ) : Edit σ Unit := ⟨fun s => (some (), f s)⟩

/-- `return None`. -/
def decline : Edit σ α := ⟨fun s => (none, s)⟩

/-- `.unwrap_or(d)`: a decline becomes a value, what was written stays. -/
def unwrapOr (m : Edit σ α) (d : α) : Edit σ α :=
  ⟨fun s => (some ((m.run s).1.getD d), (m.run s).2)⟩

/-- The program on a part of the state, which `put` writes back. -/
def within (get : σ → Option τ) (put : σ → τ → σ) (m : Edit τ α) : Edit σ α := ⟨fun s =>
  match get s with
  | none => (none, s)
  | some t => ((m.run t).1, put s (m.run t).2)⟩

/-! ## Running -/

section

variable {s s' : σ} {a : α} {b : β}

@[simp] theorem pure_run (a : α) (s : σ) : (pure a : Edit σ α).run s = (some a, s) := rfl

@[simp] theorem read_run (f : σ → α) (s : σ) : (read f).run s = (some (f s), s) := rfl

@[simp] theorem check_run (f : σ → Option α) (s : σ) : (check f).run s = (f s, s) := rfl

@[simp] theorem modify_run (f : σ → σ) (s : σ) : (modify f).run s = (some (), f s) := rfl

@[simp] theorem decline_run (s : σ) : (decline : Edit σ α).run s = (none, s) := rfl

theorem bind_run (m : Edit σ α) (f : α → Edit σ β) (s : σ) :
    (m >>= f).run s
      = match m.run s with
        | (none, s') => (none, s')
        | (some a, s') => (f a).run s' := rfl

theorem bind_run_some {m : Edit σ α} {f : α → Edit σ β} (h : m.run s = (some a, s')) :
    (m >>= f).run s = (f a).run s' := by
  rw [bind_run, h]

theorem bind_run_none {m : Edit σ α} {f : α → Edit σ β} (h : m.run s = (none, s')) :
    (m >>= f).run s = (none, s') := by
  rw [bind_run, h]

@[simp] theorem read_bind_run (f : σ → α) (k : α → Edit σ β) (s : σ) :
    (read f >>= k).run s = (k (f s)).run s := rfl

@[simp] theorem modify_bind_run (f : σ → σ) (k : Unit → Edit σ β) (s : σ) :
    (modify f >>= k).run s = (k ()).run (f s) := rfl

@[simp] theorem pure_bind_run (a : α) (k : α → Edit σ β) (s : σ) :
    ((pure a : Edit σ α) >>= k).run s = (k a).run s := rfl

theorem check_bind_run {f : σ → Option α} {k : α → Edit σ β} (h : f s = some a) :
    (check f >>= k).run s = (k a).run s :=
  bind_run_some (by rw [check_run, h])

theorem require_bind_run (p : σ → Prop) [DecidablePred p] (k : Unit → Edit σ β) (s : σ) :
    (require p >>= k).run s = if p s then (k ()).run s else (none, s) := by
  rw [require, bind_run, check_run]
  split_ifs <;> rfl

theorem unwrapOr_run_some {m : Edit σ α} (d : α) (h : m.run s = (some a, s')) :
    (unwrapOr m d).run s = (some a, s') := by
  simp only [unwrapOr, h, Option.getD_some]

theorem within_run {get : σ → Option τ} {put : σ → τ → σ} {m : Edit τ α} {t : τ}
    (h : get s = some t) : (within get put m).run s = ((m.run t).1, put s (m.run t).2) := by
  simp only [within, h]

theorem within_eq_some {get : σ → Option τ} {put : σ → τ → σ} {m : Edit τ α}
    (h : (within get put m).run s = (some a, s')) :
    ∃ t t', get s = some t ∧ m.run t = (some a, t') ∧ s' = put s t' := by
  simp only [within] at h
  split at h
  next => simp at h
  next t ht =>
    obtain ⟨h1, h2⟩ := Prod.mk.inj h
    exact ⟨t, (m.run t).2, ht, Prod.ext h1 rfl, h2.symm⟩

end

/-! ## Programs that end -/

/-- `m` does not decline at `s`, and `Q` holds of what it returns and leaves. -/
def Ends (m : Edit σ α) (s : σ) (Q : α → σ → Prop) : Prop :=
  ∃ a s', m.run s = (some a, s') ∧ Q a s'

section

variable {s : σ} {Q : α → σ → Prop} {R : β → σ → Prop}

theorem Ends.of_run {m : Edit σ α} {s' : σ} {a : α} (h : m.run s = (some a, s')) (hq : Q a s') :
    Ends m s Q :=
  ⟨a, s', h, hq⟩

theorem Ends.mono {m : Edit σ α} {Q' : α → σ → Prop} (h : Ends m s Q)
    (hqr : ∀ a s', Q a s' → Q' a s') : Ends m s Q' := by
  obtain ⟨a, s', hm, hq⟩ := h
  exact ⟨a, s', hm, hqr a s' hq⟩

theorem Ends.bind {m : Edit σ α} {f : α → Edit σ β} (h : Ends m s Q)
    (hf : ∀ a s', Q a s' → Ends (f a) s' R) : Ends (m >>= f) s R := by
  obtain ⟨a, s', hm, hq⟩ := h
  obtain ⟨b, t, hb, hr⟩ := hf a s' hq
  exact ⟨b, t, by rw [bind_run_some hm, hb], hr⟩

/-- `unwrap_or` ends whatever happens inside it. -/
theorem Ends.unwrapOr {m : Edit σ α} {d : α} (h : Q ((m.run s).1.getD d) (m.run s).2) :
    Ends (unwrapOr m d) s Q :=
  ⟨_, _, rfl, h⟩

theorem Ends.within {get : σ → Option τ} {put : σ → τ → σ} {m : Edit τ α} {t : τ}
    {P : α → τ → Prop} (hget : get s = some t) (h : Ends m t P)
    (hq : ∀ a t', P a t' → Q a (put s t')) : Ends (within get put m) s Q := by
  obtain ⟨a, t', hm, hqt⟩ := h
  exact ⟨a, put s t', by rw [within_run hget, hm], hq a t' hqt⟩

end

/-! ## What a program keeps -/

/-- Whether `m` returns or declines at `s`, `R` relates `s` to what it leaves. -/
def Keeps (R : σ → σ → Prop) (m : Edit σ α) (s : σ) : Prop := R s (m.run s).2

section

variable {s : σ} {R : σ → σ → Prop}

theorem Keeps.pure (hrefl : ∀ s, R s s) (a : α) : Keeps R (pure a) s := hrefl s

theorem Keeps.check_bind (hrefl : ∀ s, R s s) {f : σ → Option α} {k : α → Edit σ β}
    (h : ∀ a, f s = some a → Keeps R (k a) s) : Keeps R (check f >>= k) s := by
  unfold Keeps
  cases hf : f s with
  | none =>
    have hrun : (check f).run s = (none, s) := by rw [check_run, hf]
    rw [bind_run_none hrun]
    exact hrefl s
  | some a =>
    rw [check_bind_run hf]
    exact h a hf

theorem Keeps.require_bind (hrefl : ∀ s, R s s) {p : σ → Prop} [DecidablePred p]
    {k : Unit → Edit σ β} (h : p s → Keeps R (k ()) s) : Keeps R (require p >>= k) s :=
  Keeps.check_bind hrefl fun _ ha => h (by split_ifs at ha with hp; exact hp)

theorem Keeps.bind (htrans : ∀ s t u, R s t → R t u → R s u) {m : Edit σ α}
    {k : α → Edit σ β} (hm : Keeps R m s)
    (hk : ∀ a s', m.run s = (some a, s') → Keeps R (k a) s') : Keeps R (m >>= k) s := by
  unfold Keeps at hm ⊢
  rcases h : m.run s with ⟨r, t⟩
  rw [h] at hm
  cases r with
  | none =>
    rw [bind_run_none h]
    exact hm
  | some a =>
    rw [bind_run_some h]
    exact htrans _ _ _ hm (hk a t h)

end

/-! ## Programs that leave a declined state alone -/

/-- If `m` declines at `s`, it leaves `s`. -/
def Intact (m : Edit σ α) (s : σ) : Prop := (m.run s).1 = none → (m.run s).2 = s

section

variable {s : σ}

theorem Ends.intact {m : Edit σ α} {Q : α → σ → Prop} (h : Ends m s Q) : Intact m s := by
  obtain ⟨a, s', hm, -⟩ := h
  intro hn
  rw [hm] at hn
  simp at hn

/-- A check reads only, so what follows it decides. -/
theorem Intact.check_bind {f : σ → Option α} {k : α → Edit σ β}
    (h : ∀ a, f s = some a → Intact (k a) s) : Intact (check f >>= k) s := by
  cases hf : f s with
  | none =>
    have hrun : (check f).run s = (none, s) := by rw [check_run, hf]
    intro _
    rw [bind_run_none hrun]
  | some a =>
    intro hn
    rw [check_bind_run hf] at hn ⊢
    exact h a hf hn

theorem Intact.require_bind {p : σ → Prop} [DecidablePred p] {k : Unit → Edit σ β}
    (h : p s → Intact (k ()) s) : Intact (require p >>= k) s :=
  Intact.check_bind fun _ ha => h (by split_ifs at ha with hp; exact hp)

/-- A program on a part that leaves the part alone leaves the whole alone. -/
theorem Intact.within {get : σ → Option τ} {put : σ → τ → σ} {m : Edit τ α}
    (hput : ∀ t, get s = some t → put s t = s) (h : ∀ t, get s = some t → Intact m t) :
    Intact (within get put m) s := by
  cases hget : get s with
  | none =>
    intro _
    simp only [Edit.within, hget]
  | some t =>
    intro hn
    rw [within_run hget] at hn ⊢
    dsimp only at hn ⊢
    rw [h t hget hn, hput t hget]

/-- After a step that may have written, the rest has to end. -/
theorem Intact.bind {m : Edit σ α} {k : α → Edit σ β} (hm : Intact m s)
    (hk : ∀ a s', m.run s = (some a, s') → Ends (k a) s' (fun _ _ => True)) :
    Intact (m >>= k) s := by
  rcases h : m.run s with ⟨r, t⟩
  cases r with
  | none =>
    intro _
    rw [bind_run_none h]
    have ht := hm (by rw [h])
    rwa [h] at ht
  | some a =>
    intro hn
    obtain ⟨b, s', hb, -⟩ := hk a t h
    rw [bind_run_some h, hb] at hn
    simp at hn

end

end Edit

end Xpf.Edits
