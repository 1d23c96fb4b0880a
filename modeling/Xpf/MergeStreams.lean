/-
Ascending lists, and the merge of several ascending streams into one, cut at a limit.

A stream is anything with a cursor that shows an element and moves on; `rest` is the list it
still has to show. The merge takes the least element that any stream shows, moves every stream
past it, drops it if it is excluded, and stops with a flag at the first element for which there
is no room. What it returns is said once (`merge_eq`), by the list of what the streams hold.
-/
import Mathlib.Algebra.Order.BigOperators.Group.List
import Mathlib.Algebra.Order.Ring.Nat
import Mathlib.Data.List.Dedup
import Mathlib.Data.List.Sort
import Mathlib.Data.Set.Finite.Basic
import Mathlib.Order.MinMax
import Xpf.Loop

set_option autoImplicit false

namespace Xpf.MergeStreams

/-! ## Ascending lists -/

section Ascending

variable {α : Type} [LinearOrder α]

/-- Strictly ascending. -/
def Ascending (l : List α) : Prop := l.Pairwise (· < ·)

/-- Sort, then drop repetitions. -/
def sortDedup (l : List α) : List α := (l.insertionSort (· ≤ ·)).dedup

theorem ascending_sortDedup (l : List α) : Ascending (sortDedup l) := by
  have hle : (sortDedup l).Pairwise (· ≤ ·) :=
    List.Pairwise.sublist (List.dedup_sublist _) (List.pairwise_insertionSort (· ≤ ·) l)
  refine (hle.and (List.nodup_dedup _)).imp ?_
  rintro a b ⟨hab, hne⟩
  exact lt_of_le_of_ne hab hne

@[simp] theorem mem_sortDedup {l : List α} {a : α} : a ∈ sortDedup l ↔ a ∈ l := by
  rw [sortDedup, List.mem_dedup, List.mem_insertionSort]

theorem Ascending.nodup {l : List α} (h : Ascending l) : l.Nodup := h.imp fun hlt => ne_of_lt hlt

/-- An ascending list is determined by its elements. -/
theorem Ascending.ext {l l' : List α} (h : Ascending l) (h' : Ascending l') (hmem : ∀ a, a ∈ l ↔ a ∈ l') : l = l' :=
  List.Pairwise.eq_of_mem_iff h h' hmem

theorem Ascending.length_sortDedup {l : List α} (h : l.Nodup) : (sortDedup l).length = l.length := by
  have hperm : (sortDedup l).Perm l := by
    refine (List.perm_ext_iff_of_nodup (List.nodup_dedup _) h).mpr fun a => ?_
    exact mem_sortDedup
  exact hperm.length_eq

/-- The ends of a list and of one that contains it agree as far as the missing elements have
enough of the shorter list below them. -/
theorem Ascending.take_eq_take {l l' : List α} (h : Ascending l) (h' : Ascending l') (hsub : l' ⊆ l) {m : ℕ}
    (hlen : m ≤ l'.length) (hlost : ∀ a ∈ l, a ∉ l' → m ≤ l'.countP (· < a)) : l.take m = l'.take m := by
  induction m generalizing l l' with
  | zero => rw [List.take_zero, List.take_zero]
  | succ m ih =>
    cases l' with
    | nil => cases hlen
    | cons a l' =>
      cases l with
      | nil => exact (List.not_mem_nil (hsub List.mem_cons_self)).elim
      | cons b l =>
        obtain ⟨hb, hl⟩ := List.pairwise_cons.mp h
        obtain ⟨ha, hl'⟩ := List.pairwise_cons.mp h'
        have hba : b ≤ a := by
          rcases List.mem_cons.mp (hsub List.mem_cons_self) with heq | hmem
          · exact heq.symm.le
          · exact (hb a hmem).le
        -- nothing of the shorter list is below the head of the longer one
        have hbelow : (a :: l').countP (· < b) = 0 := by
          rw [List.countP_eq_zero]
          intro x hx
          rw [decide_eq_true_eq, not_lt]
          rcases List.mem_cons.mp hx with heq | hmem
          · exact heq ▸ hba
          · exact hba.trans (ha x hmem).le
        have hmem : b ∈ a :: l' := by
          by_contra hnot
          have hcount := hlost b List.mem_cons_self hnot
          omega
        have heq : b = a := by
          rcases List.mem_cons.mp hmem with heq | hmem
          · exact heq
          · exact (not_lt.mpr hba (ha b hmem)).elim
        subst heq
        rw [List.take_succ_cons, List.take_succ_cons]
        congr 1
        refine ih hl hl' (fun x hx => ?_) (Nat.le_of_succ_le_succ hlen) (fun x hx hnot => ?_)
        · rcases List.mem_cons.mp (hsub (List.mem_cons_of_mem _ hx)) with heq | hmem
          · exact (lt_irrefl x (heq ▸ ha x hx)).elim
          · exact hmem
        · have hne : x ≠ b := fun heq => lt_irrefl b (heq ▸ hb x hx)
          have hcount := hlost x (List.mem_cons_of_mem _ hx) fun hin => hnot ((List.mem_cons.mp hin).resolve_left hne)
          have hbx : decide (b < x) = true := decide_eq_true (hb x hx)
          rw [List.countP_cons, if_pos hbx] at hcount
          omega

/-- All before a cut of an ascending list are below all behind it. -/
theorem Ascending.lt_of_mem_drop {l : List α} (h : Ascending l) {m : ℕ} {a : α} (ha : a ∈ l.drop m) :
    ∀ b ∈ l.take m, b < a := by
  intro b hb
  rw [Ascending, ← List.take_append_drop m l, List.pairwise_append] at h
  exact h.2.2 b hb a ha

/-- Cut at a length, a list and one that contains it are the same and go on alike just in case
each element that is missing has that many of the shorter list below it, and the shorter list
goes on. -/
theorem Ascending.cut_eq_iff {l l' : List α} (h : Ascending l) (h' : Ascending l') (hsub : l' ⊆ l) {m : ℕ} :
    (l'.take m = l.take m ∧ (m < l'.length ↔ m < l.length))
      ↔ ∀ a ∈ l, a ∉ l' → m ≤ l'.countP (· < a) ∧ m < l'.length := by
  constructor
  · rintro ⟨htake, hmore⟩ a ha hnot
    have hdrop : a ∈ l.drop m := by
      rw [← List.take_append_drop m l, List.mem_append] at ha
      refine ha.resolve_left fun hin => hnot ?_
      rw [← htake] at hin
      exact List.mem_of_mem_take hin
    have hlt : m < l.length := by
      have hpos := List.length_pos_of_mem hdrop
      rw [List.length_drop] at hpos
      omega
    have hbelow : (l'.take m).countP (· < a) = m := by
      rw [htake, List.countP_eq_length.mpr fun b hb => decide_eq_true (h.lt_of_mem_drop hdrop b hb), List.length_take]
      omega
    refine ⟨?_, hmore.mpr hlt⟩
    calc m = (l'.take m).countP (· < a) := hbelow.symm
      _ ≤ l'.countP (· < a) := (List.take_sublist m l').countP_le
  · intro hlost
    by_cases hall : ∀ a ∈ l, a ∈ l'
    · rw [h.ext h' fun a => ⟨hall a, fun ha => hsub ha⟩]
      exact ⟨rfl, Iff.rfl⟩
    · simp only [not_forall] at hall
      obtain ⟨a, ha, hnot⟩ := hall
      have hlt := (hlost a ha hnot).2
      have hle : l'.length ≤ l.length := (h'.nodup.subperm hsub).length_le
      refine ⟨(h.take_eq_take h' hsub hlt.le fun b hb hnot => (hlost b hb hnot).1).symm, ?_⟩
      exact ⟨fun _ => hlt.trans_le hle, fun _ => hlt⟩

/-- In a finite order every property has an ascending list of what has it. -/
theorem exists_ascending [Finite α] (p : α → Prop) : ∃ l : List α, Ascending l ∧ ∀ a, a ∈ l ↔ p a := by
  classical
  have hfinite : {a | p a}.Finite := Set.toFinite _
  refine ⟨sortDedup hfinite.toFinset.toList, ascending_sortDedup _, fun a => ?_⟩
  rw [mem_sortDedup, Finset.mem_toList, Set.Finite.mem_toFinset, Set.mem_setOf_eq]

theorem Ascending.filter {l : List α} (h : Ascending l) (p : α → Bool) : Ascending (l.filter p) := List.Pairwise.filter p h

end Ascending

/-! ## Streams -/

variable {σ α : Type}

/-- A cursor: what it shows is the head of what it still holds. -/
structure Cursor (σ α : Type) where
  peek : σ → Option α
  advance : σ → σ
  rest : σ → List α
  peek_rest : ∀ s, peek s = (rest s).head?
  rest_advance : ∀ s a, peek s = some a → rest (advance s) = (rest s).tail

variable [LinearOrder α] (c : Cursor σ α)

/-- Move on while the stream shows the element. -/
def skip (a : α) (s : σ) : σ :=
  Loop.run (fun s => if c.peek s = some a then .inl (c.advance s) else .inr s) id (fun s => (c.rest s).length) s

/-- The lesser of the best element so far and the one that the stream shows. -/
def pick (best : Option α) (s : σ) : Option α :=
  match c.peek s with
  | some a => some (match best with
    | none => a
    | some b => min b a)
  | none => best

/-- The least element that a stream shows. -/
def best (streams : List σ) : Option α := streams.foldl (pick c) none

structure State (σ α : Type) where
  streams : List σ
  out : List α
  lastEmitted : Option α

variable (exclude : α → Bool) (limit : ℕ)

/-- One round of the merge: what is out and whether there is more, once it ends. -/
def round (st : State σ α) : State σ α ⊕ (List α × Bool) :=
  match best c st.streams with
  | none => .inr (st.out, false)
  | some a =>
    let streams := st.streams.map (skip c a)
    if st.lastEmitted = some a || exclude a then .inl { st with streams }
    else if limit ≤ st.out.length then .inr (st.out, true)
    else .inl { streams, out := st.out ++ [a], lastEmitted := some a }

/-- What the streams still hold. -/
def left (streams : List σ) : ℕ := (streams.map fun s => (c.rest s).length).sum

/-- The merge of the streams, without the excluded elements, cut at the limit. -/
def merge (streams : List σ) : List α × Bool :=
  Loop.run (round c exclude limit) (fun st => (st.out, false)) (fun st => left c st.streams) ⟨streams, [], none⟩

variable {c exclude limit}

theorem rest_skip (a : α) (s : σ) : c.rest (skip c a s) = (c.rest s).dropWhile (· = a) := by
  apply Loop.run_induct (motive := fun s t => c.rest t = (c.rest s).dropWhile (· = a))
  · intro s s' h
    split at h
    · next hpeek =>
      cases h
      have hhead := hpeek
      rw [c.peek_rest] at hhead
      rw [c.rest_advance s a hpeek]
      cases hrest : c.rest s with
      | nil => rw [hrest] at hhead; cases hhead
      | cons b l => exact Nat.lt_succ_self _
    · cases h
  · intro s t h
    split at h
    · cases h
    · next hpeek =>
      cases h
      rw [c.peek_rest] at hpeek
      cases hrest : c.rest s with
      | nil => rfl
      | cons b l =>
        rw [hrest] at hpeek
        rw [List.dropWhile_cons_of_neg]
        exact fun heq => hpeek (congrArg some (of_decide_eq_true heq))
  · intro s s' t h ht
    split at h
    · next hpeek =>
      cases h
      rw [ht, c.rest_advance s a hpeek]
      rw [c.peek_rest] at hpeek
      cases hrest : c.rest s with
      | nil => rw [hrest] at hpeek; cases hpeek
      | cons b l =>
        rw [hrest] at hpeek
        have hba : decide (b = a) = true := decide_eq_true (Option.some.inj hpeek)
        rw [List.dropWhile_cons, if_pos hba]
        rfl
    · cases h

/-- Past its least element an ascending stream holds just the others. -/
theorem mem_rest_skip {s : σ} (hs : Ascending (c.rest s)) {a : α} (hleast : ∀ b ∈ c.rest s, a ≤ b) :
    Ascending (c.rest (skip c a s)) ∧ ∀ b, b ∈ c.rest (skip c a s) ↔ b ∈ c.rest s ∧ b ≠ a := by
  rw [rest_skip]
  refine ⟨hs.sublist (List.dropWhile_sublist _), fun b => ?_⟩
  cases hrest : c.rest s with
  | nil => simp
  | cons x l =>
    rw [hrest] at hs hleast
    obtain ⟨hx, hl⟩ := List.pairwise_cons.mp hs
    by_cases hxa : x = a
    · have htail : l.dropWhile (· = a) = l := by
        cases l with
        | nil => rfl
        | cons y l =>
          rw [List.dropWhile_cons_of_neg]
          intro heq
          have hya : y = a := of_decide_eq_true heq
          exact lt_irrefl a (by have h := hx y List.mem_cons_self; rwa [hxa, hya] at h)
      rw [List.dropWhile_cons, if_pos (decide_eq_true hxa), htail, List.mem_cons]
      refine ⟨fun hb => ⟨.inr hb, fun heq => ?_⟩, fun ⟨hb, hne⟩ => hb.resolve_left (hxa ▸ hne)⟩
      exact lt_irrefl b (by have h := hx b hb; rwa [hxa, ← heq] at h)
    · rw [List.dropWhile_cons, if_neg fun heq => hxa (of_decide_eq_true heq)]
      refine ⟨fun hb => ⟨hb, fun heq => ?_⟩, fun hb => hb.1⟩
      have hax : a < x := lt_of_le_of_ne (hleast x List.mem_cons_self) (Ne.symm hxa)
      rcases List.mem_cons.mp hb with heq' | hmem
      · exact hxa (heq'.symm.trans heq)
      · exact lt_irrefl a (hax.trans (heq ▸ hx b hmem))

/-- The streams hold the element. -/
def Held (c : Cursor σ α) (streams : List σ) (a : α) : Prop := ∃ s ∈ streams, a ∈ c.rest s

/-- One stream more, among those that show an element. -/
theorem pick_eq_some_iff {b : Option α} {s : σ} {a : α} :
    pick c b s = some a ↔ (b = some a ∨ c.peek s = some a) ∧ ∀ x, b = some x ∨ c.peek s = some x → a ≤ x := by
  rw [pick]
  cases hpeek : c.peek s with
  | none =>
    simp only [reduceCtorEq, or_false]
    exact ⟨fun h => ⟨h, fun x hx => (Option.some.inj (h.symm.trans hx)).le⟩, fun h => h.1⟩
  | some y =>
    cases b with
    | none =>
      simp only [reduceCtorEq, false_or, Option.some.injEq]
      exact ⟨fun h => ⟨h, fun x hx => (h.symm.trans hx).le⟩, fun h => h.1⟩
    | some z =>
      simp only [Option.some.injEq]
      constructor
      · rintro rfl
        refine ⟨(min_choice z y).imp Eq.symm Eq.symm, ?_⟩
        rintro x (rfl | rfl)
        · exact min_le_left _ _
        · exact min_le_right _ _
      · rintro ⟨hfrom, hleast⟩
        have hz := hleast z (.inl rfl)
        have hy := hleast y (.inr rfl)
        rcases hfrom with rfl | rfl
        · exact min_eq_left hy
        · exact min_eq_right hz

theorem pick_eq_none {b : Option α} {s : σ} (h : pick c b s = none) : b = none ∧ c.peek s = none := by
  rw [pick] at h
  cases hpeek : c.peek s with
  | none =>
    rw [hpeek] at h
    exact ⟨h, rfl⟩
  | some a =>
    rw [hpeek] at h
    cases h

theorem foldl_pick_eq_some {streams : List σ} {b : Option α} {a : α} (h : streams.foldl (pick c) b = some a) :
    (b = some a ∨ ∃ s ∈ streams, c.peek s = some a)
      ∧ ∀ x, (b = some x ∨ ∃ s ∈ streams, c.peek s = some x) → a ≤ x := by
  induction streams generalizing b with
  | nil =>
    refine ⟨.inl h, ?_⟩
    rintro x (hx | ⟨s, hs, -⟩)
    · exact (Option.some.inj (h.symm.trans hx)).le
    · exact (List.not_mem_nil hs).elim
  | cons s streams ih =>
    obtain ⟨hfrom, hleast⟩ := ih h
    have hpicked : ∀ x, (b = some x ∨ c.peek s = some x) → a ≤ x := by
      intro x hx
      cases hpick : pick c b s with
      | none =>
        obtain ⟨hb, hpeek⟩ := pick_eq_none hpick
        rw [hb, hpeek] at hx
        rcases hx with hx | hx <;> cases hx
      | some y => exact (hleast y (.inl hpick)).trans ((pick_eq_some_iff.mp hpick).2 x hx)
    simp only [List.exists_mem_cons_iff]
    refine ⟨?_, ?_⟩
    · rcases hfrom with hpick | hlater
      · exact (pick_eq_some_iff.mp hpick).1.imp id .inl
      · exact .inr (.inr hlater)
    · rintro x (hb | hpeek | hlater)
      · exact hpicked x (.inl hb)
      · exact hpicked x (.inr hpeek)
      · exact hleast x (.inr hlater)

theorem foldl_pick_eq_none {streams : List σ} {b : Option α} (h : streams.foldl (pick c) b = none) :
    b = none ∧ ∀ s ∈ streams, c.peek s = none := by
  induction streams generalizing b with
  | nil => exact ⟨h, fun s hs => (List.not_mem_nil hs).elim⟩
  | cons s streams ih =>
    obtain ⟨hpick, hlater⟩ := ih h
    obtain ⟨hb, hpeek⟩ := pick_eq_none hpick
    exact ⟨hb, List.forall_mem_cons.mpr ⟨hpeek, hlater⟩⟩

theorem peek_mem {s : σ} {a : α} (h : c.peek s = some a) : a ∈ c.rest s :=
  List.mem_of_head? (c.peek_rest s ▸ h)

/-- An ascending stream shows the least that it holds. -/
theorem peek_le {s : σ} (hs : Ascending (c.rest s)) {x : α} (hx : x ∈ c.rest s) :
    ∃ a, c.peek s = some a ∧ a ≤ x := by
  rw [c.peek_rest]
  cases hrest : c.rest s with
  | nil => rw [hrest] at hx; cases hx
  | cons a l =>
    rw [hrest] at hs hx
    refine ⟨a, rfl, ?_⟩
    rcases List.mem_cons.mp hx with heq | hin
    · exact heq.symm.le
    · exact ((List.pairwise_cons.mp hs).1 x hin).le

/-- What the streams show at best is the least that they hold. -/
theorem best_eq_some {streams : List σ} (hasc : ∀ s ∈ streams, Ascending (c.rest s)) {a : α}
    (h : best c streams = some a) : Held c streams a ∧ ∀ x, Held c streams x → a ≤ x := by
  obtain ⟨hfrom, hleast⟩ := foldl_pick_eq_some h
  obtain ⟨s, hs, hpeek⟩ := hfrom.resolve_left (Option.some_ne_none a ·.symm)
  refine ⟨⟨s, hs, peek_mem hpeek⟩, ?_⟩
  rintro x ⟨t, ht, hx⟩
  obtain ⟨y, hy, hyx⟩ := peek_le (hasc t ht) hx
  exact (hleast y (.inr ⟨t, ht, hy⟩)).trans hyx

theorem best_eq_none {streams : List σ} (hasc : ∀ s ∈ streams, Ascending (c.rest s)) (h : best c streams = none) (x : α) :
    ¬ Held c streams x := by
  rintro ⟨s, hs, hx⟩
  obtain ⟨a, hpeek, -⟩ := peek_le (hasc s hs) hx
  rw [(foldl_pick_eq_none h).2 s hs] at hpeek
  cases hpeek

/-! ## The merge -/

theorem Held.map_skip {streams : List σ} (hasc : ∀ s ∈ streams, Ascending (c.rest s)) {a : α}
    (hleast : ∀ x, Held c streams x → a ≤ x) :
    (∀ s ∈ streams.map (skip c a), Ascending (c.rest s))
      ∧ ∀ x, Held c (streams.map (skip c a)) x ↔ Held c streams x ∧ x ≠ a := by
  have hskip : ∀ s ∈ streams, _ := fun s hs => mem_rest_skip (hasc s hs) fun b hb => hleast b ⟨s, hs, hb⟩
  refine ⟨?_, fun x => ⟨?_, ?_⟩⟩
  · intro t ht
    obtain ⟨s, hs, rfl⟩ := List.mem_map.mp ht
    exact (hskip s hs).1
  · rintro ⟨t, ht, hx⟩
    obtain ⟨s, hs, rfl⟩ := List.mem_map.mp ht
    obtain ⟨hmem, hne⟩ := ((hskip s hs).2 x).mp hx
    exact ⟨⟨s, hs, hmem⟩, hne⟩
  · rintro ⟨⟨s, hs, hmem⟩, hne⟩
    exact ⟨skip c a s, List.mem_map_of_mem hs, ((hskip s hs).2 x).mpr ⟨hmem, hne⟩⟩

theorem length_rest_skip_le (a : α) (s : σ) : (c.rest (skip c a s)).length ≤ (c.rest s).length := by
  rw [rest_skip]
  exact (List.dropWhile_sublist _).length_le

/-- A stream that shows the best element gets shorter, so a round leaves less. -/
theorem left_map_skip_lt {streams : List σ} {a : α} (h : best c streams = some a) :
    left c (streams.map (skip c a)) < left c streams := by
  obtain ⟨s, hs, hpeek⟩ := (foldl_pick_eq_some h).1.resolve_left (Option.some_ne_none a ·.symm)
  have hshorter : (c.rest (skip c a s)).length < (c.rest s).length := by
    rw [c.peek_rest] at hpeek
    rw [rest_skip]
    cases hrest : c.rest s with
    | nil => rw [hrest] at hpeek; cases hpeek
    | cons b l =>
      rw [hrest] at hpeek
      have hba : decide (b = a) = true := decide_eq_true (Option.some.inj hpeek)
      rw [List.dropWhile_cons, if_pos hba]
      exact Nat.lt_succ_of_le (List.dropWhile_sublist _).length_le
  rw [left, left, List.map_map]
  exact List.sum_lt_sum _ _ (fun t _ => length_rest_skip_le a t) ⟨s, hs, hshorter⟩

theorem round_decreases (st st' : State σ α) (h : round c exclude limit st = .inl st') :
    left c st'.streams < left c st.streams := by
  rw [round] at h
  cases hbest : best c st.streams with
  | none => rw [hbest] at h; cases h
  | some a =>
    simp only [hbest] at h
    split at h
    · cases h
      exact left_map_skip_lt hbest
    · split at h
      · cases h
      · cases h
        exact left_map_skip_lt hbest

/-- The state between two rounds: the streams ascend, and all they hold is above what was
emitted last. -/
structure State.Sound (c : Cursor σ α) (limit : ℕ) (st : State σ α) : Prop where
  ascending : ∀ s ∈ st.streams, Ascending (c.rest s)
  above : ∀ a, st.lastEmitted = some a → ∀ x, Held c st.streams x → a < x
  room : st.out.length ≤ limit

/-- What the rounds add from a state on: the ascending list of what is held and not excluded. -/
theorem run_round_eq (st : State σ α) :
    st.Sound c limit → ∀ l, Ascending l → (∀ a, a ∈ l ↔ Held c st.streams a ∧ exclude a = false) →
      Loop.run (round c exclude limit) (fun st => (st.out, false)) (fun st => left c st.streams) st
        = (st.out ++ l.take (limit - st.out.length), decide (limit - st.out.length < l.length)) := by
  refine Loop.run_induct (motive := fun st r => st.Sound c limit → ∀ l, Ascending l →
      (∀ a, a ∈ l ↔ Held c st.streams a ∧ exclude a = false) →
        r = (st.out ++ l.take (limit - st.out.length), decide (limit - st.out.length < l.length)))
    round_decreases ?_ ?_ st
  · intro st r h hsound l hl hmem
    rw [round] at h
    cases hbest : best c st.streams with
    | none =>
      rw [hbest] at h
      cases h
      have hnil : l = [] :=
        List.eq_nil_iff_forall_not_mem.mpr fun a ha => best_eq_none hsound.ascending hbest a ((hmem a).mp ha).1
      rw [hnil]
      simp
    | some a =>
      simp only [hbest] at h
      split at h
      · cases h
      · next hkeep =>
        rw [Bool.or_eq_true, not_or] at hkeep
        split at h
        · next hfull =>
          cases h
          have hkept : exclude a = false := Bool.eq_false_iff.mpr hkeep.2
          have ha : a ∈ l := (hmem a).mpr ⟨(best_eq_some hsound.ascending hbest).1, hkept⟩
          have hzero : limit - st.out.length = 0 := Nat.sub_eq_zero_of_le hfull
          rw [hzero, List.take_zero, List.append_nil, decide_eq_true (List.length_pos_of_mem ha)]
        · cases h
  · intro st st' r h ih hsound l hl hmem
    rw [round] at h
    cases hbest : best c st.streams with
    | none => rw [hbest] at h; cases h
    | some a =>
      obtain ⟨hheld, hleast⟩ := best_eq_some hsound.ascending hbest
      obtain ⟨hasc, hskip⟩ := Held.map_skip hsound.ascending hleast
      have hfresh : st.lastEmitted ≠ some a := fun hlast => lt_irrefl a (hsound.above a hlast a hheld)
      simp only [hbest, hfresh, decide_false, Bool.false_or] at h
      by_cases hexcluded : exclude a = true
      · rw [if_pos hexcluded] at h
        cases h
        refine ih ⟨hasc, fun b hb x hx => hsound.above b hb x ((hskip x).mp hx).1, hsound.room⟩ l hl fun x => ?_
        rw [hmem, hskip]
        refine ⟨fun hx => ⟨⟨hx.1, fun heq => ?_⟩, hx.2⟩, fun hx => ⟨hx.1.1, hx.2⟩⟩
        rw [heq, hexcluded] at hx
        cases hx.2
      · rw [if_neg hexcluded] at h
        split at h
        · cases h
        · next hroom =>
          cases h
          rw [Bool.not_eq_true] at hexcluded
          -- the best element is the head of the list
          cases l with
          | nil => exact (List.not_mem_nil ((hmem a).mpr ⟨hheld, hexcluded⟩)).elim
          | cons b l =>
            obtain ⟨hb, hl'⟩ := List.pairwise_cons.mp hl
            have hba : b = a := by
              have hab : a ≤ b := hleast b ((hmem b).mp List.mem_cons_self).1
              rcases List.mem_cons.mp ((hmem a).mpr ⟨hheld, hexcluded⟩) with heq | hin
              · exact heq.symm
              · exact (not_lt.mpr hab (hb a hin)).elim
            subst hba
            have hrest := ih ⟨hasc, fun x hx y hy => ?_, ?_⟩ l hl' fun x => ?_
            · rw [hrest]
              have hsucc : limit - st.out.length = limit - (st.out ++ [b]).length + 1 := by
                rw [List.length_append, List.length_singleton]
                omega
              rw [hsucc, List.take_succ_cons, List.append_assoc, List.singleton_append, List.length_cons]
              simp only [Nat.add_lt_add_iff_right]
            · cases hx
              obtain ⟨hy, hne⟩ := (hskip y).mp hy
              exact lt_of_le_of_ne (hleast y hy) (Ne.symm hne)
            · rw [List.length_append, List.length_singleton]
              omega
            · rw [hskip]
              refine ⟨fun hx => ?_, fun hx => ?_⟩
              · obtain ⟨hheldx, hkeep⟩ := (hmem x).mp (List.mem_cons_of_mem _ hx)
                exact ⟨⟨hheldx, fun heq => lt_irrefl b (heq ▸ hb x hx)⟩, hkeep⟩
              · exact (List.mem_cons.mp ((hmem x).mpr ⟨hx.1.1, hx.2⟩)).resolve_left hx.1.2

/-- **The merge.** Of ascending streams it returns the first elements of the ascending list of
what they hold and is not excluded, up to the limit, and whether there are more. -/
theorem merge_eq {streams : List σ} (hasc : ∀ s ∈ streams, Ascending (c.rest s)) {l : List α} (hl : Ascending l)
    (hmem : ∀ a, a ∈ l ↔ Held c streams a ∧ exclude a = false) :
    merge c exclude limit streams = (l.take limit, decide (limit < l.length)) := by
  have hsound : State.Sound c limit (⟨streams, [], none⟩ : State σ α) :=
    ⟨hasc, fun a ha => (Option.some_ne_none a ha.symm).elim, Nat.zero_le _⟩
  rw [merge, run_round_eq _ hsound l hl hmem]
  rfl

end Xpf.MergeStreams
