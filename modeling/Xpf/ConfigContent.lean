/-
`ConfigContent.lean` -- what `nodesEqual` compares.

`content` is a node without what the diff does not look at: where it stood in its text,
whether its list was closed, how its masks are stored, what hangs below a leaf, and the
order of siblings that `canonicalOrder` undoes. `nodesEqual` is equality of contents
(`nodesEqual_of_content`, `content_of_nodesEqual`), with one reservation. The source compares the keys of two nodes
joined with spaces and, next to that, the marks of every key; a space inside a quoted
key is not told from one between two keys, so `"a b" "c"` and `"a" "b c"` compare equal.
`NotRegrouped` rules that pair out.
-/
import Xpf.ConfigCanonical
import Xpf.ConfigCompare

set_option autoImplicit false

namespace Xpf.ConfigContent

open Xpf.GoStrings Xpf.ConfigAst Xpf.ConfigFormat Xpf.ConfigCanonical Xpf.ConfigCompare

/-! ## The marks in an identity -/

/-- The number a run of digits stands for. -/
def decimalValue (digits : Bytes) : ℕ := digits.foldl (fun n c => 10 * n + (c.toNat - 48)) 0

theorem digit_toNat {n : ℕ} (h : n < 10) : (48 + n.toUInt8 : UInt8).toNat = 48 + n := by
  revert n
  decide

theorem decimalFuel_spec : ∀ fuel n, n < fuel →
    decimalValue (decimalFuel fuel n) = n ∧ ∀ c ∈ decimalFuel fuel n, 48 ≤ c.toNat ∧ c.toNat ≤ 57 := by
  intro fuel
  induction fuel with
  | zero => exact fun n h => absurd h (Nat.not_lt_zero n)
  | succ fuel ih =>
    intro n h
    rw [decimalFuel]
    by_cases hn : n < 10
    · rw [if_pos hn]
      constructor
      · rw [decimalValue, List.foldl_cons, List.foldl_nil, digit_toNat hn]
        omega
      · intro c hc
        rw [List.mem_singleton.mp hc, digit_toNat hn]
        omega
    · obtain ⟨hvalue, hdigits⟩ := ih (n / 10) (by omega)
      have hlast := digit_toNat (Nat.mod_lt n (by omega : 0 < 10))
      rw [if_neg hn]
      constructor
      · rw [decimalValue, List.foldl_append, ← decimalValue, hvalue, List.foldl_cons, List.foldl_nil,
          hlast]
        omega
      · intro c hc
        rcases List.mem_append.mp hc with hc | hc
        · exact hdigits c hc
        · rw [List.mem_singleton.mp hc, hlast]
          omega

theorem decimal_value (n : ℕ) : decimalValue (decimal n) = n :=
  (decimalFuel_spec (n + 1) n (Nat.lt_succ_self n)).1

theorem decimal_digits {n : ℕ} {c : UInt8} (hc : c ∈ decimal n) : 48 ≤ c.toNat ∧ c.toNat ≤ 57 :=
  (decimalFuel_spec (n + 1) n (Nat.lt_succ_self n)).2 c hc

/-- Two texts cut at a byte that does not occur in front of the cut. -/
theorem cut_first {sep : UInt8} {a b s t : Bytes} (ha : sep ∉ a) (hb : sep ∉ b)
    (h : a ++ sep :: s = b ++ sep :: t) : a = b ∧ s = t := by
  induction a generalizing b with
  | nil =>
    cases b with
    | nil => exact ⟨rfl, (List.cons.inj h).2⟩
    | cons c b => exact absurd (List.cons.inj h).1 fun hc => hb (hc ▸ List.mem_cons_self)
  | cons c a ih =>
    cases b with
    | nil => exact absurd (List.cons.inj h).1 fun hc => ha (hc ▸ List.mem_cons_self)
    | cons d b =>
      rw [List.cons_append, List.cons_append] at h
      obtain ⟨hcd, htail⟩ := List.cons.inj h
      obtain ⟨hab, hst⟩ := ih (fun hm => ha (List.mem_cons_of_mem _ hm))
        (fun hm => hb (List.mem_cons_of_mem _ hm)) htail
      exact ⟨congrArg₂ List.cons hcd hab, hst⟩

/-- Two texts cut at a byte that does not occur behind the cut. -/
theorem cut_last {sep : UInt8} {a b s t : Bytes} (hs : sep ∉ s) (ht : sep ∉ t)
    (h : a ++ sep :: s = b ++ sep :: t) : a = b ∧ s = t := by
  have hrev : s.reverse ++ sep :: a.reverse = t.reverse ++ sep :: b.reverse := by
    have := congrArg List.reverse h
    simpa using this
  obtain ⟨hst, hab⟩ := cut_first (mt List.mem_reverse.mp hs) (mt List.mem_reverse.mp ht) hrev
  exact ⟨List.reverse_inj.mp hab, List.reverse_inj.mp hst⟩

theorem boolText_inj {b c : Bool} (h : boolText b = boolText c) : b = c := by
  revert h
  cases b <;> cases c <;> decide

theorem colon_notin_boolText (b : Bool) : (58 : UInt8) ∉ boolText b := by
  cases b <;> decide

theorem nul_notin_boolText (b : Bool) : (0 : UInt8) ∉ boolText b := by
  cases b <;> decide

theorem colon_notin_decimal (n : ℕ) : (58 : UInt8) ∉ decimal n := by
  intro h
  have := (decimal_digits h).2
  revert this
  decide

theorem nul_notin_decimal (n : ℕ) : (0 : UInt8) ∉ decimal n := by
  intro h
  have := (decimal_digits h).1
  revert this
  decide

/-- The text of a mark behind its NUL. -/
def markText (i : ℕ) (quoted bracketed : Bool) : Bytes :=
  decimal i ++ 58 :: (boolText quoted ++ 58 :: boolText bracketed)

theorem keyMark_eq (i : ℕ) (quoted bracketed : Bool) :
    keyMark i quoted bracketed = 0 :: markText i quoted bracketed := by
  rw [keyMark, markText, show bytes ":" = [58] from by decide]
  simp only [List.append_assoc, List.cons_append, List.nil_append]

theorem markText_inj {i j : ℕ} {q q' b b' : Bool} (h : markText i q b = markText j q' b') :
    i = j ∧ q = q' ∧ b = b' := by
  obtain ⟨hdec, hrest⟩ := cut_first (colon_notin_decimal i) (colon_notin_decimal j) h
  obtain ⟨hq, hb⟩ := cut_first (colon_notin_boolText q) (colon_notin_boolText q') hrest
  refine ⟨?_, boolText_inj hq, boolText_inj hb⟩
  rw [← decimal_value i, hdec, decimal_value]

theorem nul_notin_markText (i : ℕ) (q b : Bool) : (0 : UInt8) ∉ markText i q b := by
  rw [markText]
  intro h
  rcases List.mem_append.mp h with h | h
  · exact nul_notin_decimal i h
  · rcases List.mem_cons.mp h with h | h
    · exact absurd h (by decide)
    · rcases List.mem_append.mp h with h | h
      · exact nul_notin_boolText q h
      · rcases List.mem_cons.mp h with h | h
        · exact absurd h (by decide)
        · exact nul_notin_boolText b h

/-! ## Identities -/

/-- A key path followed by the marks of `n` keys: the marks are read off from the right. -/
theorem marks_inj {q q' b b' : ℕ → Bool} : ∀ (n m : ℕ) (p p' : Bytes),
    (n = 0 → p = []) → (m = 0 → p' = []) →
    p ++ (List.range n).flatMap (fun i => keyMark i (q i) (b i))
      = p' ++ (List.range m).flatMap (fun i => keyMark i (q' i) (b' i)) →
    n = m ∧ p = p' ∧ ∀ i < n, q i = q' i ∧ b i = b' i := by
  have hsucc : ∀ (q b : ℕ → Bool) (k : ℕ) (p : Bytes),
      p ++ (List.range (k + 1)).flatMap (fun i => keyMark i (q i) (b i))
        = (p ++ (List.range k).flatMap fun i => keyMark i (q i) (b i))
          ++ 0 :: markText k (q k) (b k) := by
    intro q b k p
    rw [List.range_succ, List.flatMap_append, List.flatMap_singleton, keyMark_eq, List.append_assoc]
  -- with the same number of keys the last marks can be taken off one by one
  have hsame : ∀ (n : ℕ) (p p' : Bytes),
      p ++ (List.range n).flatMap (fun i => keyMark i (q i) (b i))
        = p' ++ (List.range n).flatMap (fun i => keyMark i (q' i) (b' i)) →
      p = p' ∧ ∀ i < n, q i = q' i ∧ b i = b' i := by
    intro n
    induction n with
    | zero => exact fun p p' h => ⟨by simpa using h, fun i hi => absurd hi (Nat.not_lt_zero i)⟩
    | succ n ih =>
      intro p p' h
      rw [hsucc, hsucc] at h
      obtain ⟨hfront, hmark⟩ := cut_last (nul_notin_markText _ _ _) (nul_notin_markText _ _ _) h
      obtain ⟨hp, hmarks⟩ := ih p p' hfront
      refine ⟨hp, fun i hi => ?_⟩
      rcases Nat.lt_succ_iff_lt_or_eq.mp hi with hi | rfl
      · exact hmarks i hi
      · exact (markText_inj hmark).2
  intro n m p p' hn hm h
  cases n with
  | zero =>
    cases m with
    | zero => exact ⟨rfl, hsame 0 p p' h⟩
    | succ m => rw [hsucc, hn rfl] at h; simp at h
  | succ n =>
    cases m with
    | zero => rw [hsucc, hm rfl] at h; simp at h
    | succ m =>
      -- the last mark says how many keys there are
      have hlast := h
      rw [hsucc, hsucc] at hlast
      obtain ⟨-, hmark⟩ := cut_last (nul_notin_markText _ _ _) (nul_notin_markText _ _ _) hlast
      obtain rfl := (markText_inj hmark).1
      exact ⟨rfl, hsame (n + 1) p p' h⟩

/-- **An identity is the joined keys with the marks of every key**, and nothing less. -/
theorem keyProvenanceID_eq_iff (a b : NodeHead) :
    keyProvenanceID a = keyProvenanceID b
      ↔ keyPath a = keyPath b ∧ sameKeyProvenance a b = true := by
  have hsame : sameKeyProvenance a b = true ↔ a.keys.length = b.keys.length
      ∧ ∀ i < a.keys.length, a.keyQuoted i = b.keyQuoted i ∧ a.keyBracketed i = b.keyBracketed i := by
    simp [sameKeyProvenance]
  rw [hsame]
  constructor
  · intro h
    have hnil : ∀ n : NodeHead, n.keys.length = 0 → keyPath n = [] := by
      intro n hn
      rw [keyPath, List.length_eq_zero_iff.mp hn, join]
    obtain ⟨hlen, hpath, hmarks⟩ := marks_inj _ _ _ _ (hnil a) (hnil b) h
    exact ⟨hpath, hlen, hmarks⟩
  · rintro ⟨hpath, hlen, hmarks⟩
    rw [keyProvenanceID, keyProvenanceID, hpath, ← hlen]
    refine congrArg (keyPath b ++ ·) (List.flatMap_congr fun i hi => ?_)
    obtain ⟨hq, hb⟩ := hmarks i (List.mem_range.mp hi)
    rw [hq, hb]

/-! ## Contents -/

/-- The fields the diff compares, the marks written out key by key. -/
def contentHead (n : NodeHead) : NodeHead :=
  { keys := n.keys
    isLeaf := n.isLeaf
    annotationText := n.annotationText
    inactive := n.inactive
    keysQuoted := some ((List.range n.keys.length).map n.keyQuoted)
    keysBracketed := some ((List.range n.keys.length).map n.keyBracketed) }

mutual

/-- The content of a node. -/
def Node.content : Node → Node
  | ⟨n, children⟩ =>
    ⟨contentHead n, if n.isLeaf then [] else canonicalOrder (fun c => c.keys) (contents children)⟩

/-- The contents of a sibling list. -/
def contents : List Node → List Node
  | [] => []
  | n :: rest => Node.content n :: contents rest

end

theorem contents_eq_map (nodes : List Node) : contents nodes = nodes.map Node.content := by
  induction nodes with
  | nil => rfl
  | cons n rest ih => rw [contents, ih, List.map_cons]

theorem content_head (n : Node) : (Node.content n).toNodeHead = contentHead n.toNodeHead := by
  obtain ⟨head, children⟩ := n
  rw [Node.content]

theorem content_children_eq (n : Node) (h : n.isLeaf = false) :
    (Node.content n).children = canonicalOrder (fun c => c.keys) (contents n.children) := by
  obtain ⟨head, children⟩ := n
  rw [Node.content]
  exact if_neg (by rw [h]; exact Bool.false_ne_true)

/-- The contents of the children, in canonical order. -/
theorem content_children (n : Node) (h : n.isLeaf = false) :
    (Node.content n).children = (canonicalOrder (fun c => c.keys) n.children).map Node.content := by
  rw [content_children_eq n h, contents_eq_map]
  refine canonicalOrder_map (fun c => ?_) n.children
  rw [content_head]
  rfl

theorem content_leaf (n : Node) (h : n.isLeaf = true) : (Node.content n).children = [] := by
  obtain ⟨head, children⟩ := n
  rw [Node.content]
  exact if_pos h

theorem node_ext {a b : Node} (hhead : a.toNodeHead = b.toNodeHead) (hbody : a.children = b.children) :
    a = b := by
  obtain ⟨head, children⟩ := a
  obtain ⟨head', children'⟩ := b
  exact congrArg₂ Node.mk hhead hbody

/-! ## Regrouped keys -/

/-- The keys of the two nodes differ, and only in where a space of the joined keys
separates two of them. -/
def Regrouped (o n : Node) : Prop :=
  keyProvenanceID o.toNodeHead = keyProvenanceID n.toNodeHead ∧ o.keys ≠ n.keys

instance (o n : Node) : Decidable (Regrouped o n) := inferInstanceAs (Decidable (_ ∧ _))

/-- No node of one forest regroups the keys of a node of the other. -/
def NotRegrouped (old new : List Node) : Prop :=
  NodesForall (fun o => NodesForall (fun n => ¬Regrouped o n) new) old

instance (old new : List Node) : Decidable (NotRegrouped old new) :=
  inferInstanceAs (Decidable (NodesForall _ _))

theorem NotRegrouped.keys {old new : List Node} (h : NotRegrouped old new) {o n : Node} (ho : o ∈ old)
    (hn : n ∈ new) (hid : keyProvenanceID o.toNodeHead = keyProvenanceID n.toNodeHead) :
    o.keys = n.keys := by
  have hno := (nodesForall_iff.mp (nodesForall_iff.mp h o ho).1 n hn).1
  by_contra hne
  exact hno ⟨hid, hne⟩

/-- It is inherited by any two nodes. -/
theorem NotRegrouped.pair {old new : List Node} (h : NotRegrouped old new) {o n : Node}
    (ho : o ∈ old) (hn : n ∈ new) : NotRegrouped [o] [n] := by
  have hold : NodesForall (fun o => NodesForall (fun n => ¬Regrouped o n) new) [o] :=
    nodesForall_cons.mpr ⟨nodesForall_iff.mp h o ho, trivial⟩
  refine nodesForall_mono (fun m hm => ?_) hold
  exact nodesForall_cons.mpr ⟨nodesForall_iff.mp hm n hn, trivial⟩

/-- It is inherited by the children of two nodes. -/
theorem NotRegrouped.children {old new : List Node} (h : NotRegrouped old new) {o n : Node}
    (ho : o ∈ old) (hn : n ∈ new) : NotRegrouped o.children n.children := by
  refine nodesForall_mono (fun m hm => ?_) (nodesForall_iff.mp h o ho).2
  exact (nodesForall_iff.mp hm n hn).2

/-! ## `nodesEqual` -/

theorem headsEqual_iff {a b : NodeHead} :
    headsEqual a b = true ↔ keyProvenanceID a = keyProvenanceID b ∧ a.isLeaf = b.isLeaf
      ∧ a.inactive = b.inactive ∧ a.annotationText = b.annotationText := by
  rw [keyProvenanceID_eq_iff]
  simp only [headsEqual, Bool.and_eq_true, beq_iff_eq, and_assoc]

theorem contentHead_of_headsEqual {a b : NodeHead} (hkeys : a.keys = b.keys)
    (h : headsEqual a b = true) : contentHead a = contentHead b := by
  obtain ⟨hid, hleaf, hinactive, hannotated⟩ := headsEqual_iff.mp h
  obtain ⟨-, hsame⟩ := (keyProvenanceID_eq_iff a b).mp hid
  simp only [sameKeyProvenance, Bool.and_eq_true, List.all_eq_true, beq_iff_eq, List.mem_range]
    at hsame
  rw [contentHead, contentHead, ← hkeys, hleaf, hinactive, hannotated,
    List.map_congr_left fun i hi => (hsame.2 i (List.mem_range.mp hi)).1,
    List.map_congr_left fun i hi => (hsame.2 i (List.mem_range.mp hi)).2]

theorem headsEqual_of_contentHead {a b : NodeHead} (h : contentHead a = contentHead b) :
    headsEqual a b = true := by
  simp only [contentHead, NodeHead.mk.injEq, Option.some.injEq] at h
  obtain ⟨hk, hleaf, hannotated, hinactive, hquoted, hbracketed, -⟩ := h
  refine headsEqual_iff.mpr ⟨(keyProvenanceID_eq_iff a b).mpr ⟨by rw [keyPath, keyPath, hk], ?_⟩,
    hleaf, hinactive, hannotated⟩
  rw [← hk, List.map_inj_left] at hquoted hbracketed
  simp only [sameKeyProvenance, Bool.and_eq_true, List.all_eq_true, beq_iff_eq]
  exact ⟨congrArg List.length hk, fun i hi => ⟨hquoted i hi, hbracketed i hi⟩⟩

theorem equalTo_eq_map (nodes : List Node) :
    equalTo nodes = nodes.map fun n => (n.keys, nodesEqual n) := by
  induction nodes with
  | nil => rw [equalTo, List.map_nil]
  | cons n rest ih => rw [equalTo, ih, List.map_cons]

/-- `nodesEqual`, with the loop over the children in canonical order. -/
theorem nodesEqual_eq (a b : Node) :
    nodesEqual a b = (headsEqual a.toNodeHead b.toNodeHead
      && (a.isLeaf || (a.children.length == b.children.length
        && ((canonicalOrder (fun n => n.keys) a.children).zip
            (canonicalOrder (fun n => n.keys) b.children)).all fun p => nodesEqual p.1 p.2))) := by
  obtain ⟨head, children⟩ := a
  have hmap : canonicalOrder (fun t : List Bytes × (Node → Bool) => t.1)
        (children.map fun n => (n.keys, nodesEqual n))
      = (canonicalOrder (fun n : Node => n.keys) children).map fun n => (n.keys, nodesEqual n) :=
    canonicalOrder_map (fun _ => rfl) children
  rw [nodesEqual, equalTo_eq_map, hmap, List.zip_map_left, List.all_map]
  rfl

section

variable {P : Node → Node → Bool} {f : Node → Node}

/-- Two lists compared position by position. -/
theorem zip_all_of_map {as bs : List Node} (h : ∀ a ∈ as, ∀ b ∈ bs, f a = f b → P a b = true)
    (hmap : as.map f = bs.map f) :
    as.length = bs.length ∧ ((as.zip bs).all fun p => P p.1 p.2) = true := by
  refine ⟨by simpa using congrArg List.length hmap, List.all_eq_true.mpr fun p hp => ?_⟩
  obtain ⟨i, hi⟩ := List.mem_iff_getElem?.mp hp
  obtain ⟨ha, hb⟩ := List.getElem?_zip_eq_some.mp hi
  refine h p.1 (List.mem_of_getElem? ha) p.2 (List.mem_of_getElem? hb) ?_
  have hget := congrArg (·[i]?) hmap
  simp only [List.getElem?_map, ha, hb, Option.map_some, Option.some.injEq] at hget
  exact hget

theorem map_of_zip_all {as bs : List Node} (h : ∀ a ∈ as, ∀ b ∈ bs, P a b = true → f a = f b)
    (hlen : as.length = bs.length) (hall : ((as.zip bs).all fun p => P p.1 p.2) = true) :
    as.map f = bs.map f := by
  refine List.ext_getElem? fun i => ?_
  rw [List.getElem?_map, List.getElem?_map]
  by_cases hi : i < as.length
  · have ha := List.getElem?_eq_getElem hi
    have hb := List.getElem?_eq_getElem (hlen ▸ hi)
    have hzip : (as[i], bs[i]) ∈ as.zip bs :=
      List.mem_of_getElem? (List.getElem?_zip_eq_some.mpr ⟨ha, hb⟩)
    rw [ha, hb, Option.map_some, Option.map_some]
    exact congrArg some (h _ (List.getElem_mem hi) _ (List.getElem_mem _)
      (List.all_eq_true.mp hall _ hzip))
  · rw [List.getElem?_eq_none (by omega), List.getElem?_eq_none (by omega)]

end

theorem content_eq_iff (a b : Node) :
    Node.content a = Node.content b ↔ contentHead a.toNodeHead = contentHead b.toNodeHead
      ∧ (a.isLeaf = true ∨ (canonicalOrder (fun n => n.keys) a.children).map Node.content
          = (canonicalOrder (fun n => n.keys) b.children).map Node.content) := by
  have hleaf : contentHead a.toNodeHead = contentHead b.toNodeHead → a.isLeaf = b.isLeaf :=
    fun h => (NodeHead.mk.inj h).2.1
  constructor
  · intro h
    have hhead : contentHead a.toNodeHead = contentHead b.toNodeHead := by
      rw [← content_head, ← content_head, h]
    refine ⟨hhead, ?_⟩
    cases ha : a.isLeaf with
    | true => exact .inl rfl
    | false =>
      rw [← content_children a ha, ← content_children b ((hleaf hhead).symm.trans ha), h]
      exact .inr rfl
  · rintro ⟨hhead, hbody⟩
    refine node_ext (by rw [content_head, content_head, hhead]) ?_
    cases ha : a.isLeaf with
    | true => rw [content_leaf a ha, content_leaf b ((hleaf hhead).symm.trans ha)]
    | false =>
      rw [content_children a ha, content_children b ((hleaf hhead).symm.trans ha)]
      exact hbody.resolve_left (by rw [ha]; exact Bool.false_ne_true)

/-- Nodes with the same content are equal. -/
theorem nodesEqual_of_content (o : Node) :
    ∀ n, Node.content o = Node.content n → nodesEqual o n = true := by
  have hlist := level_induction (motive := fun old => ∀ o ∈ old, ∀ n,
    Node.content o = Node.content n → nodesEqual o n = true) ?_ [o]
  · exact hlist o (List.mem_singleton_self o)
  · intro old ih o ho n h
    obtain ⟨hhead, hbody⟩ := (content_eq_iff o n).mp h
    rw [nodesEqual_eq, headsEqual_of_contentHead hhead]
    rcases hbody with hleaf | hbody
    · rw [hleaf]
      rfl
    · obtain ⟨hlen, hall⟩ := zip_all_of_map (P := nodesEqual)
        (fun a ha b _ => ih o ho a (canonicalOrder_mem ha) b) hbody
      rw [(canonicalOrder_perm o.children).length_eq, (canonicalOrder_perm n.children).length_eq]
        at hlen
      rw [hall, hlen, beq_self_eq_true]
      cases o.isLeaf <;> rfl

/-- **`nodesEqual` is equality of contents** where no keys are regrouped. -/
theorem content_of_nodesEqual (o : Node) :
    ∀ n, NotRegrouped [o] [n] → nodesEqual o n = true → Node.content o = Node.content n := by
  have hlist := level_induction (motive := fun old => ∀ o ∈ old, ∀ n, NotRegrouped [o] [n] →
    nodesEqual o n = true → Node.content o = Node.content n) ?_ [o]
  · exact hlist o (List.mem_singleton_self o)
  · intro old ih o ho n hno h
    rw [nodesEqual_eq] at h
    simp only [Bool.and_eq_true, Bool.or_eq_true, beq_iff_eq] at h
    obtain ⟨hhead, hbody⟩ := h
    have hkeys := hno.keys (List.mem_singleton_self o) (List.mem_singleton_self n)
      (headsEqual_iff.mp hhead).1
    have hchildren := hno.children (List.mem_singleton_self o) (List.mem_singleton_self n)
    refine (content_eq_iff o n).mpr ⟨contentHead_of_headsEqual hkeys hhead, hbody.imp id ?_⟩
    rintro ⟨hlen, hall⟩
    refine map_of_zip_all (P := nodesEqual) ?_ ?_ hall
    · intro a ha b hb
      exact ih o ho a (canonicalOrder_mem ha) b
        (hchildren.pair (canonicalOrder_mem ha) (canonicalOrder_mem hb))
    · rw [(canonicalOrder_perm o.children).length_eq, (canonicalOrder_perm n.children).length_eq, hlen]

end Xpf.ConfigContent
