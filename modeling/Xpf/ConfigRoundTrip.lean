/-
`ConfigRoundTrip.lean` -- formatting an accepted configuration and reading it back.

`Format` is what is synchronized to the peer, archived and rolled back to, so what it
writes is read again. It is read back as the tree it was written from, in canonical
order, unless one of three things happens:

| | |
|---|---|
| `listsReadBack` | a list is written around a bare word with a bracket in it, which splits there |
| `height` | the tree is deeper than the parser goes: an inline `inactive:` made a level more |
| `fitsBudget` | the statements written out are charged more than the ones that were read |

`roundTrips_iff` says that these are all. The induction is over the forest that is
written, with the parser's loop state next to it: a statement that reads back moves the
loop to the next one, and the first that does not leaves an error or another node in
front of everything that follows.
-/
import Xpf.ConfigStatement

set_option autoImplicit false

namespace Xpf.ConfigRoundTrip

open Xpf.Loop Xpf.GoStrings Xpf.ConfigLexer Xpf.ConfigLexing Xpf.ConfigComment Xpf.ConfigAst
open Xpf.ConfigParser Xpf.ConfigGrammar Xpf.ConfigFormat Xpf.ConfigReparse Xpf.ConfigKeyPath
open Xpf.ConfigAccepted Xpf.ConfigCanonical Xpf.ConfigStatement

/-! ## The conditions -/

mutual

/-- The block levels of a node. -/
def Node.height : Node → ℕ
  | ⟨n, children⟩ => if n.isLeaf then 0 else height children + 1

/-- The block levels of a forest. -/
def height : List Node → ℕ
  | [] => 0
  | n :: rest => max (Node.height n) (height rest)

end

mutual

/-- The parser gets through a statement, `count` units after the start of the text. -/
def Node.fitsBudget (count : ℕ) : Node → Bool
  | ⟨n, children⟩ =>
    decide (count + 1 < maxParseNodes)
      && decide (count + ((if n.inactive then 1 else 0) + n.keys.length) ≤ maxParseNodes)
      && fitsBudget count children

/-- The parser gets through a statement list: a statement is charged its node and its
keys when it is complete, but every key, the `inactive:` included, is read against the
count so far. -/
def fitsBudget (count : ℕ) : List Node → Bool
  | [] => true
  | n :: rest => Node.fitsBudget count n && fitsBudget (count + n.countUnits) rest

end

/-- A forest reads back with `levels` block levels left and `count` units charged. -/
structure ReadsBack (levels count : ℕ) (nodes : List Node) : Prop where
  lists : NodesForall (fun n => listsReadBack n.toNodeHead = true) nodes
  height : height nodes < levels
  budget : fitsBudget count nodes = true

theorem readsBack_cons {levels count : ℕ} (hlevels : 0 < levels) {n : Node} {rest : List Node}
    (hok : NodeOk n) :
    ReadsBack levels count (n :: rest)
      ↔ (listsReadBack n.toNodeHead = true ∧ count + 1 < maxParseNodes
          ∧ count + (statementLexemes n.toNodeHead).length ≤ maxParseNodes
          ∧ (n.isLeaf = false → ReadsBack (levels - 1) count n.children))
        ∧ ReadsBack levels (count + n.countUnits) rest := by
  rw [statementLexemes_length]
  have hleaf := hok.leaf
  obtain ⟨head, children⟩ := n
  constructor
  · rintro ⟨hlists, hheight, hbudget⟩
    rw [nodesForall_cons] at hlists
    rw [height, Node.height, Nat.max_lt] at hheight
    rw [fitsBudget, Node.fitsBudget] at hbudget
    simp only [Bool.and_eq_true, decide_eq_true_eq] at hbudget
    refine ⟨⟨hlists.1.1, hbudget.1.1.1, hbudget.1.1.2, fun hblock => ?_⟩,
      ⟨hlists.2, hheight.2, hbudget.2⟩⟩
    rw [if_neg (Bool.eq_false_iff.mp hblock)] at hheight
    have hchildren : height children < levels - 1 := by omega
    exact ⟨hlists.1.2, hchildren, hbudget.1.2⟩
  · rintro ⟨⟨hlists, hcap, hkeys, hchildren⟩, hrest⟩
    by_cases hblock : head.isLeaf = true
    · obtain rfl : children = [] := hleaf hblock
      refine ⟨nodesForall_cons.mpr ⟨⟨hlists, trivial⟩, hrest.lists⟩, ?_, ?_⟩
      · rw [height, Node.height, if_pos hblock]
        exact Nat.max_lt.mpr ⟨hlevels, hrest.height⟩
      · rw [fitsBudget, Node.fitsBudget]
        simp only [Bool.and_eq_true, decide_eq_true_eq]
        exact ⟨⟨⟨hcap, hkeys⟩, rfl⟩, hrest.budget⟩
    · have hchildren := hchildren (Bool.eq_false_iff.mpr hblock)
      refine ⟨nodesForall_cons.mpr ⟨⟨hlists, hchildren.lists⟩, hrest.lists⟩, ?_, ?_⟩
      · rw [height, Node.height, if_neg hblock]
        have hheight : height children < levels - 1 := hchildren.height
        exact Nat.max_lt.mpr ⟨by omega, hrest.height⟩
      · rw [fitsBudget, Node.fitsBudget]
        simp only [Bool.and_eq_true, decide_eq_true_eq]
        exact ⟨⟨⟨hcap, hkeys⟩, hchildren.budget⟩, hrest.budget⟩

/-! ## Following the parser over a rendered forest -/

/-- The parser in front of a rendered forest: if it reads back, the statement loop goes
on behind it with the same nodes, and if not, what the loop ends with is an error or
does not start with these nodes. -/
def Follows (nodes : List Node) : Prop :=
  ∀ (levels indent : ℕ) (tail : Bytes) (acc : List Node) (p : Parser),
    p.depth + levels = maxParseDepth + 1 → 0 < levels → p.nodeBudgetExceeded = false →
    Ahead p.lexer (render indent nodes ++ tail) →
    (ReadsBack levels p.nodes nodes →
      ∃ nodes' l, statementsLoop (parseStatements levels) (acc, p)
          = statementsLoop (parseStatements levels)
              (acc ++ nodes', { p with lexer := l, nodes := p.nodes + countNodeUnits nodes })
        ∧ nodesCore nodes' = nodesCore nodes ∧ Ahead l tail)
    ∧ (¬ ReadsBack levels p.nodes nodes →
        (statementsLoop (parseStatements levels) (acc, p)).2.errors = [] →
        ∃ r, (statementsLoop (parseStatements levels) (acc, p)).1 = acc ++ r
          ∧ ¬ nodesCore nodes <+: nodesCore r)

theorem ahead_close {l : Lexer} {indent : ℕ} {tail : Bytes}
    (h : Ahead l (indentation indent ++ (bytes "\x7d\n" ++ tail))) :
    l.scan.type = .rBrace ∧ Ahead l.next.2 tail := by
  have hscan := ahead_scan (ahead_indentation h)
  have hrest : (Gap.start 0 (bytes "\x7d\n" ++ tail)).rest
      = '\x7d'.toUInt8 :: ('\n'.toUInt8 :: tail) := rfl
  rw [scanGap_rBrace hrest] at hscan
  refine ⟨by rw [hscan], ?_, ['\n'.toUInt8], List.all_eq_true.mp (by decide), ?_⟩
  · rw [next_bracketDepth, hscan]
    rfl
  · rw [next_rest, hscan]
    rfl

theorem parseBody_errors {block : Parser → List Node × Parser} {p : Parser}
    (h : (parseBody block p).2.errors = []) :
    (block p.next.2).2.errors = [] ∧ (parseBody block p).1 = (block p.next.2).1 := by
  rw [parseBody] at h ⊢
  dsimp only at h ⊢
  split_ifs at h ⊢
  · exact ⟨h, rfl⟩
  · exact absurd h (addError_errors_ne _ _ _ _)

/-- Past the depth cap `parseStatements` leaves an error. -/
theorem parseStatements_deep (levels : ℕ) {p : Parser} (hdeep : maxParseDepth ≤ p.depth) :
    (parseStatements (levels + 1) p).2.errors ≠ [] := by
  rw [parseStatements, if_pos (Nat.lt_succ_of_le hdeep)]
  dsimp only
  have herr := addError_errors_ne p.peek.2 p.peek.1.line p.peek.1.column (.nesting maxParseDepth)
  generalize p.peek.2.addError p.peek.1.line p.peek.1.column (.nesting maxParseDepth) = q at herr
  exact fun hskip => herr ((skipToBlockClose_later q).clean hskip).1

/-- A statement list that is read to its end. -/
theorem parseStatements_reads {levels units : ℕ} {p : Parser} {nodes : List Node} {l : Lexer}
    (hdeep : p.depth < maxParseDepth) (hflag : p.nodeBudgetExceeded = false)
    (hloop : statementsLoop (parseStatements levels) ([], { p with depth := p.depth + 1 })
      = statementsLoop (parseStatements levels)
          (nodes, { p with depth := p.depth + 1, lexer := l, nodes := p.nodes + units }))
    (hend : l.scan.type = .eof ∨ l.scan.type = .rBrace) :
    parseStatements (levels + 1) p
      = (nodes, { p with lexer := l.peek.2, nodes := p.nodes + units }) := by
  let q : Parser := { p with depth := p.depth + 1, lexer := l, nodes := p.nodes + units }
  have hstop : statementsLoop (parseStatements levels) (nodes, q) = (nodes, q.peek.2) :=
    statementsLoop_end (parseStatements levels) nodes hflag hend
  exact parseStatements_eq hdeep (hloop.trans hstop)

/-- The body of a block, when its statement list is read up to the closing brace. -/
theorem parseBody_reads {levels units i : ℕ} {tail : Bytes} {p : Parser} {children : List Node}
    {l : Lexer} (hblock : parseStatements levels p.next.2
      = (children, { p with lexer := l, nodes := p.nodes + units }))
    (hl : Ahead l (indentation i ++ (bytes "\x7d\n" ++ tail))) :
    parseBody (parseStatements levels) p
        = (children, { p with lexer := l.peek.2.next.2, nodes := p.nodes + units })
      ∧ Ahead l.peek.2.next.2 tail := by
  obtain ⟨hbrace, hnext⟩ := ahead_close hl
  refine ⟨?_, hnext⟩
  have hbrace' : l.peek.1.type = .rBrace := hbrace
  rw [parseBody, hblock]
  dsimp only [Parser.peek]
  rw [if_pos hbrace']
  rfl

/-- The statement loop behind a statement that is read with the keys of `n`. -/
theorem statementsLoop_reads_next {levels : ℕ} {p : Parser} {n node : Node} {l : Lexer}
    (acc : List Node) (hflag : p.nodeBudgetExceeded = false)
    (hkey : isKey p.lexer.scan.type = true) (hcap : p.nodes + 1 < maxParseNodes)
    (hparse : parseStatement (parseStatements levels) p.peek.2
      = (some node, { p with lexer := l, nodes := p.nodes + countNodeUnits n.children }))
    (hkeys : node.keys = n.keys) :
    statementsLoop (parseStatements levels) (acc, p)
      = statementsLoop (parseStatements levels)
          (acc ++ [node], { p with lexer := l, nodes := p.nodes + n.countUnits }) := by
  rw [statementsLoop_statement (parseStatements_later levels) acc hflag hkey hcap hparse]
  have hunits : p.nodes + countNodeUnits n.children + (1 + node.keys.length)
      = p.nodes + n.countUnits := by
    obtain ⟨head, children⟩ := n
    rw [Node.countUnits, hkeys]
    dsimp only
    omega
  exact congrArg (fun m => statementsLoop (parseStatements levels)
    (acc ++ [node], { p with lexer := l, nodes := m })) hunits

/-- The statement list of a rendered forest, in front of a token that ends it. -/
theorem parseStatements_follows {nodes : List Node} (hfollows : Follows nodes) {levels indent : ℕ}
    {tail : Bytes} {p : Parser} (hdepth : p.depth + levels = maxParseDepth + 1) (hlevels : 0 < levels)
    (hflag : p.nodeBudgetExceeded = false) (hl : Ahead p.lexer (render indent nodes ++ tail))
    (hend : ∀ l, Ahead l tail → l.scan.type = .eof ∨ l.scan.type = .rBrace) :
    (ReadsBack (levels - 1) p.nodes nodes →
      ∃ nodes' l, parseStatements levels p
          = (nodes', { p with lexer := l, nodes := p.nodes + countNodeUnits nodes })
        ∧ nodesCore nodes' = nodesCore nodes ∧ Ahead l tail)
    ∧ (¬ ReadsBack (levels - 1) p.nodes nodes → (parseStatements levels p).2.errors = [] →
        nodesCore (parseStatements levels p).1 ≠ nodesCore nodes) := by
  obtain ⟨levels, rfl⟩ : ∃ k, levels = k + 1 := Nat.exists_eq_succ_of_ne_zero hlevels.ne'
  rw [Nat.add_sub_cancel]
  by_cases hdeep : p.depth < maxParseDepth
  · let q : Parser := { p with depth := p.depth + 1 }
    obtain ⟨hgood, hbad⟩ := hfollows levels indent tail [] q (by dsimp only [q]; omega) (by omega)
      hflag hl
    constructor
    · intro hreads
      obtain ⟨nodes', l, hloop, hcore, hl'⟩ := hgood hreads
      rw [List.nil_append] at hloop
      exact ⟨nodes', l.peek.2, parseStatements_reads hdeep hflag hloop (hend l hl'), hcore, hl'⟩
    · intro hreads hclean hcore
      have hblock : parseStatements (levels + 1) p
          = ((statementsLoop (parseStatements levels) ([], q)).1,
              { (statementsLoop (parseStatements levels) ([], q)).2 with
                depth := (statementsLoop (parseStatements levels) ([], q)).2.depth - 1 }) :=
        parseStatements_eq hdeep rfl
      rw [hblock] at hclean hcore
      obtain ⟨r, hr, hdiffers⟩ := hbad hreads hclean
      dsimp only at hcore
      rw [hr, List.nil_append] at hcore
      exact hdiffers (hcore ▸ List.prefix_rfl)
  · constructor
    · intro hreads
      exact absurd hreads.height (by omega)
    · intro _ hclean
      exact absurd hclean (parseStatements_deep levels (Nat.not_lt.mp hdeep))

/-- The body of a rendered block. -/
theorem parseBody_follows {children : List Node} (hfollows : Follows children) {levels indent i : ℕ}
    {tail : Bytes} {p : Parser} (hdepth : p.depth + levels = maxParseDepth + 1) (hlevels : 0 < levels)
    (hflag : p.nodeBudgetExceeded = false)
    (hl : Ahead p.lexer.next.2
      (render indent children ++ (indentation i ++ (bytes "\x7d\n" ++ tail)))) :
    (ReadsBack (levels - 1) p.nodes children →
      ∃ children' l, parseBody (parseStatements levels) p
          = (children', { p with lexer := l, nodes := p.nodes + countNodeUnits children })
        ∧ nodesCore children' = nodesCore children ∧ Ahead l tail)
    ∧ (¬ ReadsBack (levels - 1) p.nodes children →
        (parseBody (parseStatements levels) p).2.errors = [] →
        nodesCore (parseBody (parseStatements levels) p).1 ≠ nodesCore children) := by
  obtain ⟨hgood, hbad⟩ := @parseStatements_follows children hfollows levels indent
    (indentation i ++ (bytes "\x7d\n" ++ tail)) p.next.2 hdepth hlevels hflag hl
    fun l hl => .inr (ahead_close hl).1
  constructor
  · intro hreads
    obtain ⟨children', l, hblock, hcore, hl'⟩ := hgood hreads
    obtain ⟨hparse, hnext⟩ := parseBody_reads hblock hl'
    exact ⟨children', l.peek.2.next.2, hparse, hcore, hnext⟩
  · intro hreads hclean
    obtain ⟨hclean', hnodes⟩ := parseBody_errors hclean
    rw [hnodes]
    exact hbad hreads hclean'

/-- One rendered statement: it reads back when its lists, its keys and its body do, and
gives another node or an error when they do not. -/
theorem parseStatement_follows {n : Node} (hok : NodeOk n) (hfollows : Follows n.children)
    {levels indent : ℕ} {tail : Bytes} {p : Parser} (hdepth : p.depth + levels = maxParseDepth + 1)
    (hlevels : 0 < levels) (hflag : p.nodeBudgetExceeded = false) (hle : p.nodes ≤ maxParseNodes)
    (hl : Ahead p.lexer
      (statementText indent n.toNodeHead (render (indent + 1) n.children) ++ tail)) :
    let reads := listsReadBack n.toNodeHead = true
      ∧ p.nodes + (statementLexemes n.toNodeHead).length ≤ maxParseNodes
      ∧ (n.isLeaf = false → ReadsBack (levels - 1) p.nodes n.children)
    (reads → ∃ node l, parseStatement (parseStatements levels) p
          = (some node, { p with lexer := l, nodes := p.nodes + countNodeUnits n.children })
        ∧ Node.core node = Node.core n ∧ Ahead l tail)
    ∧ (¬ reads → (parseStatement (parseStatements levels) p).2.errors = [] →
        ∃ node, (parseStatement (parseStatements levels) p).1 = some node
          ∧ Node.core node ≠ Node.core n) := by
  intro reads
  have hlater := parseStatements_later levels
  by_cases hlists : listsReadBack n.toNodeHead = true
  swap
  · refine ⟨fun h => absurd h.1 hlists, fun _ hclean => ?_⟩
    obtain ⟨node, hnode, hdiffers⟩ := parseStatement_misreads hlater hok hlists hl hflag hle hclean
    refine ⟨node, hnode, fun heq => hdiffers ?_⟩
    rw [core_eq, core_eq] at heq
    exact congrArg Node.toNodeHead heq
  by_cases hkeys : p.nodes + (statementLexemes n.toNodeHead).length ≤ maxParseNodes
  swap
  · refine ⟨fun h => absurd h.2.1 hkeys, fun _ hclean => absurd hclean ?_⟩
    exact parseStatement_overBudget hlater (delimited_statementTail _ _ _ _)
      (finds_statement_all hok hlists hl) hflag hle (Nat.not_le.mp hkeys)
  by_cases hleaf : n.isLeaf = true
  · obtain ⟨node, l, hparse, hcore, hnext⟩ :=
      parseStatement_leaf_reads (parseStatements levels) hok hlists hleaf hl hkeys
    constructor
    · intro _
      refine ⟨node, l, ?_, hcore, hnext⟩
      rw [hparse, hok.leaf hleaf]
      rfl
    · exact fun h => absurd ⟨hlists, hkeys, fun hblock => absurd hleaf (Bool.eq_false_iff.mp hblock)⟩ h
  · have hblock : n.isLeaf = false := Bool.eq_false_iff.mpr hleaf
    obtain ⟨head, l, hparse, hcore, hbody⟩ :=
      parseStatement_block_reads (parseStatements levels) hok hlists hblock hl hkeys
    obtain ⟨hgood, hbad⟩ := @parseBody_follows n.children hfollows levels (indent + 1) indent tail
      { p with lexer := l } hdepth hlevels hflag hbody
    constructor
    · rintro ⟨-, -, hchildren⟩
      obtain ⟨children', l', hparse', hcore', hnext⟩ := hgood (hchildren hblock)
      refine ⟨⟨head, children'⟩, l', ?_, ?_, hnext⟩
      · rw [hparse, hparse']
      · rw [core_eq, core_eq, hcore', hcore]
    · intro hreads hclean
      rw [hparse] at hclean ⊢
      refine ⟨_, rfl, fun heq => ?_⟩
      rw [core_eq, core_eq] at heq
      refine hbad (fun hchildren => hreads ⟨hlists, hkeys, fun _ => hchildren⟩) hclean ?_
      exact congrArg Node.children heq

theorem statementsLoop_extends {block : Parser → List Node × Parser}
    (hlater : ∀ p, Later p (block p).2) (st : StatementsState) :
    st.1 <+: (statementsLoop block st).1 := by
  refine run_induct (statementsStep_dec hlater) (motive := fun st st' => st.1 <+: st'.1) ?_ ?_ st
  · intro st st' h
    obtain ⟨nodes, p⟩ := st
    rw [statementsStep] at h
    dsimp only at h
    split_ifs at h
    · obtain rfl := Sum.inr.inj h
      exact List.prefix_rfl
    · obtain rfl := Sum.inr.inj h
      exact List.prefix_rfl
    · obtain rfl := Sum.inr.inj h
      exact List.prefix_rfl
    · split at h <;> cases h
  · intro st st' r h hr
    obtain ⟨nodes, p⟩ := st
    refine List.IsPrefix.trans ?_ hr
    rw [statementsStep] at h
    dsimp only at h
    split_ifs at h
    · obtain rfl := Sum.inl.inj h
      exact List.prefix_rfl
    · split at h
      · obtain rfl := Sum.inl.inj h
        exact List.prefix_append _ _
      · obtain rfl := Sum.inl.inj h
        exact List.prefix_rfl

/-- **The parser follows every rendered forest** of nodes it can build. -/
theorem follows (nodes : List Node) : NodesForall NodeOk nodes → Follows nodes := by
  refine forest_induction (motive := fun nodes => NodesForall NodeOk nodes → Follows nodes)
    ?_ ?_ nodes
  · intro _ levels indent tail acc p _ hlevels _ hl
    constructor
    · intro _
      exact ⟨[], p.lexer, by rw [List.append_nil]; rfl, rfl, hl⟩
    · exact fun h => absurd ⟨trivial, hlevels, rfl⟩ h
  · intro n rest ihc ihr hall levels indent tail acc p hdepth hlevels hflag hl
    rw [nodesForall_cons] at hall
    obtain ⟨⟨hok, hchildren⟩, hrest⟩ := hall
    rw [render_cons, List.append_assoc] at hl
    have hkey := statement_isKey hok hl
    rw [readsBack_cons hlevels hok]
    by_cases hcap : p.nodes + 1 < maxParseNodes
    swap
    · refine ⟨fun h => absurd h.1.2.1 hcap, fun _ hclean => absurd hclean ?_⟩
      exact statementsLoop_overBudget (parseStatements levels) acc hflag hkey hcap
    obtain ⟨hgood, hbad⟩ := @parseStatement_follows n hok (ihc hchildren) levels indent
      (render indent rest ++ tail) p.peek.2 hdepth hlevels hflag (show p.nodes ≤ _ by omega) hl
    have hlater := parseStatements_later levels
    by_cases hreads : listsReadBack n.toNodeHead = true
        ∧ p.nodes + (statementLexemes n.toNodeHead).length ≤ maxParseNodes
        ∧ (n.isLeaf = false → ReadsBack (levels - 1) p.nodes n.children)
    · -- the statement reads back, so the loop goes on behind it
      obtain ⟨node, l, hparse, hcore, hnext⟩ := hgood hreads
      have hkeys : node.keys = n.keys := by
        have hheads := congrArg (fun m : Node => m.keys) hcore
        rw [core_eq, core_eq] at hheads
        exact hheads
      let q : Parser := { p with lexer := l, nodes := p.nodes + n.countUnits }
      have hstep : statementsLoop (parseStatements levels) (acc, p)
          = statementsLoop (parseStatements levels) (acc ++ [node], q) :=
        statementsLoop_reads_next acc hflag hkey hcap hparse hkeys
      obtain ⟨hgood', hbad'⟩ := ihr hrest levels indent tail (acc ++ [node]) q hdepth hlevels hflag hnext
      rw [hstep]
      constructor
      · rintro ⟨-, hrest'⟩
        obtain ⟨nodes', l', hloop, hcore', hl'⟩ := hgood' hrest'
        refine ⟨node :: nodes', l', ?_, ?_, hl'⟩
        · rw [hloop, List.append_assoc, countNodeUnits, ← Nat.add_assoc]
          rfl
        · rw [nodesCore, nodesCore, hcore, hcore']
      · intro hnot hclean
        obtain ⟨r, hr, hdiffers⟩ := hbad' (fun h => hnot ⟨⟨hreads.1, hcap, hreads.2⟩, h⟩) hclean
        refine ⟨node :: r, by rw [hr, List.append_assoc]; rfl, ?_⟩
        rw [nodesCore, nodesCore, hcore, List.cons_prefix_cons]
        exact fun h => hdiffers h.2
    · -- it does not, so what it leaves stands in front of everything else
      refine ⟨fun h => absurd ⟨h.1.1, h.1.2.2⟩ hreads, fun _ hclean => ?_⟩
      obtain ⟨node, hnode, hdiffers⟩ :=
        hbad hreads (statementsLoop_clean hlater hflag hkey hcap hclean)
      have hparse : parseStatement (parseStatements levels) p.peek.2
          = (some node, (parseStatement (parseStatements levels) p.peek.2).2) := by rw [← hnode]
      have hstep := statementsLoop_statement hlater acc hflag hkey hcap hparse
      obtain ⟨r, hr⟩ := statementsLoop_extends hlater (acc ++ [node], _)
      refine ⟨node :: r, ?_, ?_⟩
      · rw [hstep, ← hr, List.append_assoc]
        rfl
      · rw [nodesCore, nodesCore, List.cons_prefix_cons]
        exact fun h => hdiffers h.1.symm

/-! ## The round trip -/

theorem nodeOk_canonical (n : Node) (h : NodeOk n) : NodeOk (Node.canonical n) := by
  have hleaf : n.isLeaf = true → (Node.canonical n).children = [] := by
    intro hleaf
    rw [canonical_children, h.leaf hleaf]
    rfl
  obtain ⟨head, children⟩ := n
  exact ⟨h.keys, h.words, h.marker, h.comment, hleaf⟩

/-- The text `Format` writes for an accepted configuration is accepted, and its tree has
the nesting, keys, kinds, annotations and `inactive:` flags of the tree that was
written, with siblings where `canonicalOrder` puts them. -/
def RoundTrips (tree : List Node) : Prop :=
  ∃ tree', parse (format tree) = (tree', []) ∧ nodesCore tree' = nodesCore (canonicalForest tree)

/-- **The round trip.** An accepted configuration is formatted and read back as itself if
and only if no rendered list splits a key, the tree is at most `maxParseDepth - 1`
blocks deep, and the written statements fit the parse budget. -/
theorem roundTrips_iff (input : Bytes) (h : (parse input).2 = []) :
    RoundTrips (parse input).1
      ↔ NodesForall (fun n => listsReadBack n.toNodeHead = true) (canonicalForest (parse input).1)
        ∧ height (canonicalForest (parse input).1) < maxParseDepth
        ∧ fitsBudget 0 (canonicalForest (parse input).1) = true := by
  have hok := canonicalForest_forall nodeOk_canonical _ (forest_nodesOk (parse_forest h))
  generalize (parse input).1 = tree at hok ⊢
  have hend : ∀ l, Ahead l [] → l.scan.type = .eof ∨ l.scan.type = .rBrace := by
    intro l hl
    rw [ahead_scan hl]
    exact .inl (scan_nil 0)
  have hl : Ahead (newParser (format tree)).lexer (render 0 (canonicalForest tree) ++ []) := by
    refine ⟨rfl, [], (by rintro _ ⟨⟩), ?_⟩
    rw [List.append_nil, List.nil_append, ← formatNodes_eq]
    rfl
  obtain ⟨hgood, hbad⟩ := @parseStatements_follows _ (follows _ hok) (maxParseDepth + 1) 0 []
    (newParser (format tree)) rfl (Nat.succ_pos _) rfl hl hend
  constructor
  · rintro ⟨tree', hparse, hcore⟩
    by_contra hnot
    have hclean := @parse_clean (format tree) (by rw [hparse])
    refine hbad (fun hreads => hnot ⟨hreads.lists, hreads.height, hreads.budget⟩) hclean.2.1 ?_
    rw [← hclean.1, hparse, hcore]
  · rintro ⟨hlists, hheight, hbudget⟩
    obtain ⟨nodes', l, hparse, hcore, hl'⟩ := hgood ⟨hlists, hheight, hbudget⟩
    refine ⟨nodes', parse_eq hparse ?_ rfl rfl, hcore⟩
    dsimp only
    rw [ahead_scan hl']
    exact scan_nil 0

/-- A policy with a list, a comment, a deactivated block and a `from` behind its `then`
is read back. -/
theorem roundTrips_policy :
    RoundTrips (parse (bytes ("policy \"a b\" \x7b then accept; /* old */ inactive: from \x7b "
      ++ "neighbor [ 10.0.0.1 [::1]:179 ]; \x7d \x7d"))).1 :=
  (roundTrips_iff (bytes ("policy \"a b\" \x7b then accept; /* old */ inactive: from \x7b "
    ++ "neighbor [ 10.0.0.1 [::1]:179 ]; \x7d \x7d")) (by decide +kernel)).mpr
    ⟨by decide +kernel, by decide +kernel, by decide +kernel⟩

/-- `x []a[b]c;` has the two keys `x` and `a[b]c`, and its formatted text has four. -/
theorem not_roundTrips_splitList :
    (parse (bytes "x []a[b]c;")).2 = [] ∧ ¬ RoundTrips (parse (bytes "x []a[b]c;")).1 := by
  refine ⟨by decide +kernel, ?_⟩
  rintro ⟨tree', hparse, hcore⟩
  have htree : nodesCore (parse (format (parse (bytes "x []a[b]c;")).1)).1
      ≠ nodesCore (canonicalForest (parse (bytes "x []a[b]c;")).1) := by decide +kernel
  rw [hparse] at htree
  exact htree hcore

end Xpf.ConfigRoundTrip
