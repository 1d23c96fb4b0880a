/-
`ConfigOrder.lean` -- how stable the display order of siblings is.

`canonicalOrder` is there to show the `match` or `from` of a policy, a NAT rule or a
filter term in front of its `then`. It moves one sibling: the last `match`/`from` goes
in front of the last `then` when it stands behind it. With one such clause behind the
`then` that is a stable reordering. With two, the last one is taken past the other, and
the other still stands behind the `then`, where the next call moves it in its turn.

`canonicalOrder_stable_iff` says that this is the only way the order is not stable.
-/
import Mathlib.Data.List.DropRight
import Xpf.ConfigCanonical

set_option autoImplicit false

namespace Xpf.ConfigOrder

open Xpf.GoStrings Xpf.ConfigAst Xpf.ConfigFormat Xpf.ConfigCanonical

section

variable {α : Type} (keysOf : α → List Bytes)

/-! ## Clauses and actions -/

/-- The cases of the `switch` in `canonicalOrder`. -/
inductive Rank
  | clause
  | action
  | other
  deriving Repr, DecidableEq

/-- A `match` or a `from`. -/
def isClause (a : α) : Bool := (keysOf a).head?.any [bytes "match", bytes "from"].contains

/-- A `then`. -/
def isAction (a : α) : Bool := (keysOf a).head?.any [bytes "then"].contains

/-- The rank of a node among its siblings. -/
def rank (a : α) : Rank :=
  if isClause keysOf a then .clause else if isAction keysOf a then .action else .other

/-- The clauses that stand behind the last `then`. -/
def clausesBehindThen (nodes : List α) : ℕ :=
  if nodes.any (isAction keysOf) then
    (nodes.rtakeWhile fun a => !isAction keysOf a).countP (isClause keysOf)
  else 0

/-- The order of a sibling list is stable: it has the same siblings, those of one rank in
the order they had, and is its own canonical order. -/
structure StableOrder (nodes : List α) : Prop where
  perm : (canonicalOrder keysOf nodes).Perm nodes
  sameRank : ∀ r, (canonicalOrder keysOf nodes).filter (fun a => rank keysOf a = r)
    = nodes.filter fun a => rank keysOf a = r
  idempotent : canonicalOrder keysOf (canonicalOrder keysOf nodes) = canonicalOrder keysOf nodes

end

section

variable {α : Type} {keysOf : α → List Bytes}

/-- No first key is both. -/
theorem not_isAction_of_isClause {a : α} (h : isClause keysOf a = true) :
    isAction keysOf a = false := by
  rw [isClause] at h
  rw [isAction]
  cases hkey : (keysOf a).head? with
  | none => rfl
  | some k =>
    rw [hkey] at h
    simp only [Option.any_some, List.contains_iff_mem, List.mem_cons, List.not_mem_nil,
      or_false] at h
    rcases h with rfl | rfl <;> decide

/-- The last node with a property. -/
theorem exists_last {p : α → Bool} {l : List α} (h : ∃ a ∈ l, p a = true) :
    ∃ front a back, l = front ++ a :: back ∧ p a = true ∧ ∀ b ∈ back, p b = false := by
  induction l with
  | nil =>
    obtain ⟨a, ha, -⟩ := h
    cases ha
  | cons x l ih =>
    by_cases hl : ∃ a ∈ l, p a = true
    · obtain ⟨front, a, back, rfl, ha, hback⟩ := ih hl
      exact ⟨x :: front, a, back, rfl, ha, hback⟩
    · obtain ⟨a, hmem, ha⟩ := h
      have hx : p x = true := by
        rcases List.mem_cons.mp hmem with rfl | hmem
        · exact ha
        · exact absurd ⟨a, hmem, ha⟩ hl
      refine ⟨[], x, l, rfl, hx, fun b hb => ?_⟩
      exact Bool.eq_false_iff.mpr fun hpb => hl ⟨b, hb, hpb⟩

/-! ## The two indices -/

theorem lastIdx_split {names : List Bytes} {front back : List α} {a : α}
    (ha : (keysOf a).head?.any names.contains = true)
    (hback : ∀ b ∈ back, (keysOf b).head?.any names.contains = false) :
    lastIdx keysOf names (front ++ a :: back) = some front.length := by
  have hnone : (back.zipIdx (0 + front.length + 1)).filter
      (fun t => (keysOf t.1).head?.any names.contains) = [] := by
    rw [List.filter_eq_nil_iff]
    intro t ht
    rw [hback t.1 (List.fst_mem_of_mem_zipIdx ht)]
    exact Bool.false_ne_true
  rw [lastIdx, List.zipIdx_append, List.zipIdx_cons, List.filter_append, List.filter_cons]
  dsimp only
  rw [if_pos ha, hnone, List.getLast?_append]
  simp

theorem lastIdx_none {names : List Bytes} {nodes : List α}
    (h : ∀ b ∈ nodes, (keysOf b).head?.any names.contains = false) :
    lastIdx keysOf names nodes = none := by
  have hnone : nodes.zipIdx.filter (fun t => (keysOf t.1).head?.any names.contains) = [] := by
    rw [List.filter_eq_nil_iff]
    intro t ht
    rw [h t.1 (List.fst_mem_of_mem_zipIdx ht)]
    exact Bool.false_ne_true
  rw [lastIdx, hnone]
  rfl

/-- A list without a `then` stays as it is. -/
theorem canonicalOrder_of_no_action {nodes : List α} (h : ∀ b ∈ nodes, isAction keysOf b = false) :
    canonicalOrder keysOf nodes = nodes := by
  rw [canonicalOrder, lastIdx_none h]
  split <;> first | rfl | contradiction

/-- So does a list with no clause behind its last `then`. -/
theorem canonicalOrder_of_no_clause {front rest : List α} {t : α} (ht : isAction keysOf t = true)
    (hrest : ∀ b ∈ rest, isAction keysOf b = false) (hnone : ∀ b ∈ rest, isClause keysOf b = false) :
    canonicalOrder keysOf (front ++ t :: rest) = front ++ t :: rest := by
  have htIdx : lastIdx keysOf [bytes "then"] (front ++ t :: rest) = some front.length :=
    lastIdx_split ht hrest
  rw [canonicalOrder, htIdx]
  have htClause : isClause keysOf t = false := by
    refine Bool.eq_false_iff.mpr fun hc => ?_
    rw [not_isAction_of_isClause hc] at ht
    cases ht
  by_cases hfront : ∃ a ∈ front, isClause keysOf a = true
  · -- the last clause is in front of the `then`
    obtain ⟨front', a, back, rfl, ha, hback⟩ := exists_last hfront
    have hmIdx : lastIdx keysOf [bytes "match", bytes "from"] (front' ++ a :: (back ++ t :: rest))
        = some front'.length := by
      refine lastIdx_split ha fun b hb => ?_
      rcases List.mem_append.mp hb with hb | hb
      · exact hback b hb
      · rcases List.mem_cons.mp hb with rfl | hb
        · exact htClause
        · exact hnone b hb
    rw [← List.cons_append, ← List.append_assoc] at hmIdx
    rw [hmIdx]
    dsimp only
    rw [if_pos (by simp)]
  · have hmIdx : lastIdx keysOf [bytes "match", bytes "from"] (front ++ t :: rest) = none := by
      refine lastIdx_none fun b hb => ?_
      rcases List.mem_append.mp hb with hb | hb
      · exact Bool.eq_false_iff.mpr fun hc => hfront ⟨b, hb, hc⟩
      · rcases List.mem_cons.mp hb with rfl | hb
        · exact htClause
        · exact hnone b hb
    rw [hmIdx]

/-- **The move.** The last clause behind the last `then` goes in front of it. -/
theorem canonicalOrder_move {front mid back : List α} {t c : α} (ht : isAction keysOf t = true)
    (hc : isClause keysOf c = true) (hrest : ∀ b ∈ mid ++ c :: back, isAction keysOf b = false)
    (hback : ∀ b ∈ back, isClause keysOf b = false) :
    canonicalOrder keysOf (front ++ t :: (mid ++ c :: back))
      = front ++ c :: t :: (mid ++ back) := by
  have htIdx : lastIdx keysOf [bytes "then"] (front ++ t :: (mid ++ c :: back))
      = some front.length := lastIdx_split ht hrest
  have hmIdx : lastIdx keysOf [bytes "match", bytes "from"] (front ++ t :: (mid ++ c :: back))
      = some (front ++ t :: mid).length := by
    have hlast := @lastIdx_split _ keysOf [bytes "match", bytes "from"] (front ++ t :: mid) back c
      hc hback
    rwa [List.append_assoc, List.cons_append] at hlast
  have hlen : (front ++ t :: mid).length = front.length + mid.length + 1 := by simp; omega
  have hget : (front ++ t :: (mid ++ c :: back))[front.length + mid.length + 1]? = some c := by
    rw [← List.cons_append, ← List.append_assoc, ← hlen, List.getElem?_append_right (Nat.le_refl _),
      Nat.sub_self]
    rfl
  rw [canonicalOrder, hmIdx, htIdx]
  dsimp only
  rw [hlen, if_neg (by omega), hget]
  exact flatMap_zipIdx_move front mid back t c

/-! ## Behind the last `then` -/

theorem clausesBehindThen_of_no_action {nodes : List α}
    (h : ∀ b ∈ nodes, isAction keysOf b = false) : clausesBehindThen keysOf nodes = 0 := by
  rw [clausesBehindThen, if_neg]
  rw [List.any_eq_true]
  rintro ⟨b, hb, hact⟩
  rw [h b hb] at hact
  cases hact

theorem clausesBehindThen_split {front rest : List α} {t : α} (ht : isAction keysOf t = true)
    (hrest : ∀ b ∈ rest, isAction keysOf b = false) :
    clausesBehindThen keysOf (front ++ t :: rest) = rest.countP (isClause keysOf) := by
  have hany : (front ++ t :: rest).any (isAction keysOf) = true :=
    List.any_eq_true.mpr ⟨t, by simp, ht⟩
  have htake : (front ++ t :: rest).rtakeWhile (fun a => !isAction keysOf a) = rest := by
    rw [List.rtakeWhile, List.reverse_append, List.reverse_cons, List.append_assoc,
      List.takeWhile_append_of_pos, List.singleton_append, List.takeWhile_cons_of_neg,
      List.append_nil, List.reverse_reverse]
    · rw [ht]
      exact Bool.false_ne_true
    · intro b hb
      rw [hrest b (List.mem_reverse.mp hb)]
      rfl
  rw [clausesBehindThen, if_pos hany, htake]

/-- Where a sibling list stands: it has no `then`, no clause behind the last one, or a last
clause behind it. -/
theorem order_cases (nodes : List α) :
    (∀ b ∈ nodes, isAction keysOf b = false)
      ∨ (∃ front t rest, nodes = front ++ t :: rest ∧ isAction keysOf t = true
          ∧ (∀ b ∈ rest, isAction keysOf b = false) ∧ ∀ b ∈ rest, isClause keysOf b = false)
      ∨ ∃ front t mid c back, nodes = front ++ t :: (mid ++ c :: back) ∧ isAction keysOf t = true
          ∧ isClause keysOf c = true ∧ (∀ b ∈ mid ++ c :: back, isAction keysOf b = false)
          ∧ ∀ b ∈ back, isClause keysOf b = false := by
  by_cases hact : ∃ a ∈ nodes, isAction keysOf a = true
  · obtain ⟨front, t, rest, hnodes, ht, hrest⟩ := exists_last hact
    by_cases hclause : ∃ a ∈ rest, isClause keysOf a = true
    · obtain ⟨mid, c, back, rfl, hc, hback⟩ := exists_last hclause
      exact .inr (.inr ⟨front, t, mid, c, back, hnodes, ht, hc, hrest, hback⟩)
    · refine .inr (.inl ⟨front, t, rest, hnodes, ht, hrest, fun b hb => ?_⟩)
      exact Bool.eq_false_iff.mpr fun hb' => hclause ⟨b, hb, hb'⟩
  · exact .inl fun b hb => Bool.eq_false_iff.mpr fun hb' => hact ⟨b, hb, hb'⟩

/-- **A list that has no clause behind its last `then` is in canonical order**, and no other
is. -/
theorem canonicalOrder_eq_self_iff (nodes : List α) :
    canonicalOrder keysOf nodes = nodes ↔ clausesBehindThen keysOf nodes = 0 := by
  rcases @order_cases _ keysOf nodes with hact | ⟨front, t, rest, rfl, ht, hrest, hnone⟩
      | ⟨front, t, mid, c, back, rfl, ht, hc, hrest, hback⟩
  · exact iff_of_true (canonicalOrder_of_no_action hact) (clausesBehindThen_of_no_action hact)
  · refine iff_of_true (canonicalOrder_of_no_clause ht hrest hnone) ?_
    rw [clausesBehindThen_split ht hrest, List.countP_eq_zero]
    intro b hb
    rw [hnone b hb]
    exact Bool.false_ne_true
  · refine iff_of_false ?_ ?_
    · rw [canonicalOrder_move ht hc hrest hback]
      intro heq
      -- a clause stands now where the `then` stood
      obtain rfl : c = t := (List.cons.inj (List.append_cancel_left heq)).1
      rw [not_isAction_of_isClause hc] at ht
      cases ht
    · rw [clausesBehindThen_split ht hrest, List.countP_append, List.countP_cons_of_pos hc]
      omega

/-- One call takes one clause away from behind the `then`. -/
theorem clausesBehindThen_canonicalOrder (nodes : List α) :
    clausesBehindThen keysOf (canonicalOrder keysOf nodes) = clausesBehindThen keysOf nodes - 1 := by
  rcases @order_cases _ keysOf nodes with hact | ⟨front, t, rest, rfl, ht, hrest, hnone⟩
      | ⟨front, t, mid, c, back, rfl, ht, hc, hrest, hback⟩
  · rw [canonicalOrder_of_no_action hact, clausesBehindThen_of_no_action hact]
  · have hself : canonicalOrder keysOf (front ++ t :: rest) = front ++ t :: rest :=
      canonicalOrder_of_no_clause ht hrest hnone
    rw [hself, (canonicalOrder_eq_self_iff _).mp hself]
  · have hrest' : ∀ b ∈ mid ++ back, isAction keysOf b = false := by
      intro b hb
      refine hrest b ?_
      rcases List.mem_append.mp hb with hb | hb
      · exact List.mem_append_left _ hb
      · exact List.mem_append_right _ (List.mem_cons_of_mem _ hb)
    have hmove : front ++ c :: t :: (mid ++ back) = (front ++ [c]) ++ t :: (mid ++ back) := by
      rw [List.append_assoc]
      rfl
    rw [canonicalOrder_move ht hc hrest hback, hmove, clausesBehindThen_split ht hrest',
      clausesBehindThen_split ht hrest, List.countP_append, List.countP_append,
      List.countP_cons_of_pos hc]
    omega

theorem rank_eq_clause_iff {a : α} : rank keysOf a = .clause ↔ isClause keysOf a = true := by
  rw [rank]
  split_ifs with hc ht
  · exact iff_of_true rfl hc
  · exact iff_of_false (by rintro ⟨⟩) hc
  · exact iff_of_false (by rintro ⟨⟩) hc

/-- With one clause behind the last `then`, the move passes no other clause. -/
theorem canonicalOrder_sameRank {nodes : List α} (h : clausesBehindThen keysOf nodes ≤ 1)
    (r : Rank) :
    (canonicalOrder keysOf nodes).filter (fun a => rank keysOf a = r)
      = nodes.filter fun a => rank keysOf a = r := by
  rcases @order_cases _ keysOf nodes with hact | ⟨front, t, rest, rfl, ht, hrest, hnone⟩
      | ⟨front, t, mid, c, back, rfl, ht, hc, hrest, hback⟩
  · rw [canonicalOrder_of_no_action hact]
  · rw [canonicalOrder_of_no_clause ht hrest hnone]
  · rw [clausesBehindThen_split ht hrest, List.countP_append, List.countP_cons_of_pos hc] at h
    have hmid : ∀ b ∈ mid, ¬ isClause keysOf b = true := List.countP_eq_zero.mp (by omega)
    have hcRank : rank keysOf c = .clause := rank_eq_clause_iff.mpr hc
    rw [canonicalOrder_move ht hc hrest hback]
    simp only [List.filter_append, List.filter_cons]
    by_cases hr : r = .clause
    · -- nothing between the `then` and the clause has its rank
      subst hr
      have htRank : rank keysOf t ≠ .clause := by
        rw [Ne, rank_eq_clause_iff]
        intro htc
        rw [not_isAction_of_isClause htc] at ht
        cases ht
      have hmidNone : mid.filter (fun a => rank keysOf a = .clause) = [] := by
        rw [List.filter_eq_nil_iff]
        intro b hb
        rw [decide_eq_true_eq, rank_eq_clause_iff]
        exact hmid b hb
      rw [hcRank, decide_eq_true rfl, decide_eq_false htRank, hmidNone]
      simp
    · -- the clause itself has another one
      have hcr : rank keysOf c ≠ r := fun heq => hr (heq.symm.trans hcRank)
      rw [decide_eq_false hcr]
      simp

/-- **The display order of a sibling list is stable** if and only if at most one `match`
or `from` stands behind its last `then`. -/
theorem stableOrder_iff (nodes : List α) :
    StableOrder keysOf nodes ↔ clausesBehindThen keysOf nodes ≤ 1 := by
  have hidem : canonicalOrder keysOf (canonicalOrder keysOf nodes) = canonicalOrder keysOf nodes
      ↔ clausesBehindThen keysOf nodes ≤ 1 := by
    rw [canonicalOrder_eq_self_iff, clausesBehindThen_canonicalOrder, Nat.sub_eq_zero_iff_le]
  constructor
  · exact fun h => hidem.mp h.idempotent
  · exact fun h => ⟨canonicalOrder_perm nodes, canonicalOrder_sameRank h, hidem.mpr h⟩

end

end Xpf.ConfigOrder
