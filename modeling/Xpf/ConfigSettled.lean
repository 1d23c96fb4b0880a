/-
`ConfigSettled.lean` -- formatting what was formatted.

The text of `Format` is what the next commit, the archive and the peer start from, so a
configuration is formatted again after it was read back. `sameTexts_parse` says that what
is read back is written like the tree it came from, statement by statement; whether the
whole text is the same the second time is then a question of the order of siblings alone,
and `ConfigOrder.lean` has the answer for one sibling list. `format_settles_iff` puts the
two together.
-/
import Xpf.ConfigOrder
import Xpf.ConfigReread

set_option autoImplicit false

namespace Xpf.ConfigSettled

open Xpf.Loop Xpf.GoStrings Xpf.ConfigLexer Xpf.ConfigLexing Xpf.ConfigComment Xpf.ConfigAst
open Xpf.ConfigParser Xpf.ConfigGrammar Xpf.ConfigFormat Xpf.ConfigReparse Xpf.ConfigKeyPath
open Xpf.ConfigAccepted Xpf.ConfigCanonical Xpf.ConfigStatement Xpf.ConfigRoundTrip
open Xpf.ConfigOrder Xpf.ConfigReread

/-! ## Trees that are written alike -/

mutual

/-- Two nodes that `Format` writes alike. -/
def Node.SameText : Node → Node → Prop
  | ⟨head, children⟩, ⟨head', children'⟩ =>
    coreHead head = coreHead head' ∧ formatNodeKeyPath head = formatNodeKeyPath head'
      ∧ SameTexts children children'

/-- Two forests that `Format` writes alike. -/
def SameTexts : List Node → List Node → Prop
  | [], [] => True
  | n :: rest, n' :: rest' => Node.SameText n n' ∧ SameTexts rest rest'
  | _, _ => False

end

theorem coreHead_fields {a b : NodeHead} (h : coreHead a = coreHead b) :
    a.keys = b.keys ∧ a.isLeaf = b.isLeaf ∧ a.annotationText = b.annotationText
      ∧ a.inactive = b.inactive := by
  have hkeys := congrArg NodeHead.keys h
  have hleaf := congrArg NodeHead.isLeaf h
  have hnote := congrArg NodeHead.annotationText h
  have hin := congrArg NodeHead.inactive h
  exact ⟨hkeys, hleaf, hnote, hin⟩

theorem sameText_iff {n n' : Node} :
    Node.SameText n n' ↔ coreHead n.toNodeHead = coreHead n'.toNodeHead
      ∧ formatNodeKeyPath n.toNodeHead = formatNodeKeyPath n'.toNodeHead
      ∧ SameTexts n.children n'.children := by
  obtain ⟨head, children⟩ := n
  obtain ⟨head', children'⟩ := n'
  rw [Node.SameText]

/-- What the order and the text of siblings are made of. -/
def face (t : NodeHead × Bytes) : List Bytes × Bytes := (t.1.keys, t.2)

theorem inOrder_face (texts : List (NodeHead × Bytes)) :
    inOrder texts = (canonicalOrder (fun t => t.1) (texts.map face)).flatMap (·.2) := by
  have hmap : canonicalOrder (fun t : List Bytes × Bytes => t.1) (texts.map face)
      = (canonicalOrder (fun t : NodeHead × Bytes => t.1.keys) texts).map face :=
    canonicalOrder_map (fun _ => rfl) texts
  rw [hmap, List.flatMap_map, inOrder]
  rfl

theorem formatTexts_same (nodes : List Node) : ∀ (nodes' : List Node) (indent : ℕ),
    SameTexts nodes nodes' →
    (formatTexts indent nodes).map face = (formatTexts indent nodes').map face := by
  refine forest_induction (motive := fun nodes => ∀ (nodes' : List Node) (indent : ℕ),
    SameTexts nodes nodes' →
    (formatTexts indent nodes).map face = (formatTexts indent nodes').map face) ?_ ?_ nodes
  · intro nodes' indent h
    cases nodes' with
    | nil => rfl
    | cons n' rest' => exact h.elim
  · intro n rest ihc ihr nodes' indent h
    cases nodes' with
    | nil => exact h.elim
    | cons n' rest' =>
      obtain ⟨hn, hrest⟩ := h
      obtain ⟨hcore, hpath, hchildren⟩ := sameText_iff.mp hn
      have hbody := ihc n'.children (indent + 1) hchildren
      have htail := ihr rest' indent hrest
      obtain ⟨head, children⟩ := n
      obtain ⟨head', children'⟩ := n'
      dsimp only at hcore hpath hbody
      obtain ⟨hkeys, hleaf, hnote, hin⟩ := coreHead_fields hcore
      rw [formatTexts, formatTexts, List.map_cons, List.map_cons, htail, face, face, Node.format,
        Node.format, inOrder_face, inOrder_face, hbody, hpath, annotationLine, annotationLine,
        inactivePrefix, inactivePrefix, hkeys, hleaf, hnote, hin]

theorem formatNodes_same {nodes nodes' : List Node} (h : SameTexts nodes nodes') (indent : ℕ) :
    formatNodes indent nodes = formatNodes indent nodes' := by
  rw [formatNodes, formatNodes, inOrder_face, inOrder_face, formatTexts_same nodes nodes' indent h]

/-! ## Reading a formatted tree -/

/-- The parser in front of a rendered forest that reads back: the statement loop goes on
behind it with nodes that are written alike. -/
def FollowsText (nodes : List Node) : Prop :=
  ∀ (levels indent : ℕ) (tail : Bytes) (acc : List Node) (p : Parser),
    p.depth + levels = maxParseDepth + 1 → 0 < levels → p.nodeBudgetExceeded = false →
    Ahead p.lexer (render indent nodes ++ tail) → ReadsBack levels p.nodes nodes →
    ∃ nodes' l, statementsLoop (parseStatements levels) (acc, p)
        = statementsLoop (parseStatements levels)
            (acc ++ nodes', { p with lexer := l, nodes := p.nodes + countNodeUnits nodes })
      ∧ SameTexts nodes' nodes ∧ Ahead l tail

/-- The statement list of a rendered forest. -/
theorem parseStatements_sameTexts {nodes : List Node} (hfollows : FollowsText nodes)
    {levels indent : ℕ} {tail : Bytes} {p : Parser}
    (hdepth : p.depth + (levels + 1) = maxParseDepth + 1) (hlevels : 0 < levels)
    (hflag : p.nodeBudgetExceeded = false) (hl : Ahead p.lexer (render indent nodes ++ tail))
    (hend : ∀ l, Ahead l tail → l.scan.type = .eof ∨ l.scan.type = .rBrace)
    (hreads : ReadsBack levels p.nodes nodes) :
    ∃ nodes' l, parseStatements (levels + 1) p
        = (nodes', { p with lexer := l, nodes := p.nodes + countNodeUnits nodes })
      ∧ SameTexts nodes' nodes ∧ Ahead l tail := by
  obtain ⟨nodes', l, hloop, hsame, hl'⟩ := hfollows levels indent tail []
    { p with depth := p.depth + 1 } (by dsimp only; omega) hlevels hflag hl hreads
  rw [List.nil_append] at hloop
  have hdeep : p.depth < maxParseDepth := by omega
  exact ⟨nodes', l.peek.2, parseStatements_reads hdeep hflag hloop (hend l hl'), hsame, hl'⟩

/-- A node that is read back as the leaf `n`. -/
theorem sameText_leaf {n node : Node} (hok : NodeOk n) (hleaf : n.isLeaf = true)
    (hcore : Node.core node = Node.core n)
    (hpath : formatNodeKeyPath node.toNodeHead = formatNodeKeyPath n.toNodeHead) :
    Node.SameText node n := by
  rw [core_eq, core_eq, hok.leaf hleaf] at hcore
  have hchildren : node.children = [] := by
    have hnil : nodesCore node.children = [] := congrArg Node.children hcore
    cases hcs : node.children with
    | nil => rfl
    | cons c cs =>
      rw [hcs] at hnil
      cases hnil
  refine sameText_iff.mpr ⟨congrArg Node.toNodeHead hcore, hpath, ?_⟩
  rw [hchildren, hok.leaf hleaf]
  trivial

/-- One statement, read back and written alike. -/
theorem parseStatement_sameText {n : Node} (hok : NodeOk n)
    (hclosed : dropsOnceClosed n.toNodeHead = false) (hfollows : FollowsText n.children)
    {levels indent : ℕ} {tail : Bytes} {p : Parser} (hdepth : p.depth + levels = maxParseDepth + 1)
    (hflag : p.nodeBudgetExceeded = false)
    (hl : Ahead p.lexer
      (statementText indent n.toNodeHead (render (indent + 1) n.children) ++ tail))
    (hlists : listsReadBack n.toNodeHead = true)
    (hkeys : p.nodes + (statementLexemes n.toNodeHead).length ≤ maxParseNodes)
    (hchildren : n.isLeaf = false → ReadsBack (levels - 1) p.nodes n.children) :
    ∃ node l, parseStatement (parseStatements levels) p
        = (some node, { p with lexer := l, nodes := p.nodes + countNodeUnits n.children })
      ∧ Node.SameText node n ∧ Ahead l tail := by
  have hpath : ∀ node, (parseStatement (parseStatements levels) p).1 = some node →
      node.isLeaf = n.isLeaf → formatNodeKeyPath node.toNodeHead = formatNodeKeyPath n.toNodeHead :=
    fun node hnode hleaf =>
      (parseStatement_reread (parseStatements levels) hok hlists hl hkeys hnode hleaf).sameText hok
        hclosed
  by_cases hleaf : n.isLeaf = true
  · obtain ⟨node, l, hparse, hcore, hnext⟩ :=
      parseStatement_leaf_reads (parseStatements levels) hok hlists hleaf hl hkeys
    have hkind : node.isLeaf = n.isLeaf := by
      rw [core_eq, core_eq] at hcore
      exact (coreHead_fields (congrArg Node.toNodeHead hcore)).2.1
    refine ⟨node, l, ?_, ?_, hnext⟩
    · rw [hparse, hok.leaf hleaf]
      rfl
    · exact sameText_leaf hok hleaf hcore (hpath node (by rw [hparse]) hkind)
  · have hblock : n.isLeaf = false := Bool.eq_false_iff.mpr hleaf
    obtain ⟨head, l, hparse, hcore, hbody⟩ :=
      parseStatement_block_reads (parseStatements levels) hok hlists hblock hl hkeys
    have hreads := hchildren hblock
    -- a body that reads back has a level below the cap
    obtain ⟨k, rfl⟩ : ∃ k, levels = k + 1 := by
      have hheight := hreads.height
      exact ⟨levels - 1, by omega⟩
    rw [Nat.add_sub_cancel] at hreads
    have hk : 0 < k := Nat.zero_lt_of_lt hreads.height
    let q : Parser := { p with lexer := l }
    obtain ⟨children', l', hchildren', hsame, hl'⟩ :=
      @parseStatements_sameTexts n.children hfollows k (indent + 1)
        (indentation indent ++ (bytes "\x7d\n" ++ tail)) q.next.2 hdepth hk hflag hbody
        (fun l hl => .inr (ahead_close hl).1) hreads
    obtain ⟨hparse', hnext⟩ := @parseBody_reads _ _ indent tail q children' l' hchildren' hl'
    refine ⟨⟨head, children'⟩, _, ?_, ?_, hnext⟩
    · rw [hparse, hparse']
    · refine sameText_iff.mpr ⟨hcore, ?_, hsame⟩
      refine hpath ⟨head, (parseBody (parseStatements (k + 1)) q).1⟩ (by rw [hparse]) ?_
      exact (coreHead_fields hcore).2.1

/-- **A rendered forest is read back as one that is written alike.** -/
theorem followsText (nodes : List Node) : NodesForall NodeOk nodes →
    NodesForall (fun n => dropsOnceClosed n.toNodeHead = false) nodes → FollowsText nodes := by
  refine forest_induction (motive := fun nodes => NodesForall NodeOk nodes →
    NodesForall (fun n => dropsOnceClosed n.toNodeHead = false) nodes → FollowsText nodes)
    ?_ ?_ nodes
  · intro _ _ levels indent tail acc p _ _ _ hl _
    exact ⟨[], p.lexer, by rw [List.append_nil]; rfl, trivial, hl⟩
  · intro n rest ihc ihr hall hopen levels indent tail acc p hdepth hlevels hflag hl hreads
    rw [nodesForall_cons] at hall hopen
    obtain ⟨⟨hok, hchildren⟩, hrest⟩ := hall
    rw [readsBack_cons hlevels hok] at hreads
    obtain ⟨⟨hlists, hcap, hkeys, hbody⟩, hrest'⟩ := hreads
    rw [render_cons, List.append_assoc] at hl
    obtain ⟨node, l, hparse, hsame, hnext⟩ := @parseStatement_sameText n hok hopen.1.1
      (ihc hchildren hopen.1.2) levels indent (render indent rest ++ tail) p.peek.2 hdepth hflag hl
      hlists hkeys hbody
    have hkeyText : node.keys = n.keys := (coreHead_fields (sameText_iff.mp hsame).1).1
    let q : Parser := { p with lexer := l, nodes := p.nodes + n.countUnits }
    have hstep : statementsLoop (parseStatements levels) (acc, p)
        = statementsLoop (parseStatements levels) (acc ++ [node], q) :=
      statementsLoop_reads_next acc hflag (statement_isKey hok hl) hcap hparse hkeyText
    obtain ⟨nodes', l', hloop, hsame', hl'⟩ :=
      ihr hrest hopen.2 levels indent tail (acc ++ [node]) q hdepth hlevels hflag hnext hrest'
    refine ⟨node :: nodes', l', ?_, ⟨hsame, hsame'⟩, hl'⟩
    rw [hstep, hloop, List.append_assoc, countNodeUnits, ← Nat.add_assoc]
    rfl

/-- What `Format` wrote, if it reads back, is read as a tree that is written alike. -/
theorem sameTexts_parse {tree : List Node} (hok : NodesForall NodeOk tree)
    (hclosed : NodesForall (fun n => dropsOnceClosed n.toNodeHead = false) tree)
    (hreads : ReadsBack maxParseDepth 0 (canonicalForest tree)) :
    ∃ tree', parse (format tree) = (tree', []) ∧ SameTexts tree' (canonicalForest tree) := by
  have hok' := canonicalForest_forall nodeOk_canonical _ hok
  have hclosed' : NodesForall (fun n => dropsOnceClosed n.toNodeHead = false)
      (canonicalForest tree) := by
    refine canonicalForest_forall (fun n hn => ?_) _ hclosed
    obtain ⟨head, children⟩ := n
    exact hn
  have hl : Ahead (newParser (format tree)).lexer (render 0 (canonicalForest tree) ++ []) := by
    refine ⟨rfl, [], (by rintro _ ⟨⟩), ?_⟩
    rw [List.append_nil, List.nil_append, ← formatNodes_eq]
    rfl
  have hend : ∀ l, Ahead l [] → l.scan.type = .eof := by
    intro l hl
    rw [ahead_scan hl]
    exact scan_nil 0
  obtain ⟨tree', l, hparse, hsame, hl'⟩ := @parseStatements_sameTexts _ (followsText _ hok' hclosed')
    maxParseDepth 0 [] (newParser (format tree)) rfl (by decide) rfl hl (fun l hl => .inl (hend l hl))
    hreads
  exact ⟨tree', parse_eq hparse (hend l hl') rfl rfl, hsame⟩

/-! ## Settled trees -/

/-- The clauses of a sibling list behind its last `then`. -/
def lateClauses (nodes : List Node) : ℕ := clausesBehindThen (fun n => n.keys) nodes

/-- In every sibling list at most `k` clauses stand behind the last `then`. -/
def AtMostLate (k : ℕ) (nodes : List Node) : Prop :=
  lateClauses nodes ≤ k ∧ NodesForall (fun n => lateClauses n.children ≤ k) nodes

theorem clausesBehindThen_map {α β : Type} {keysOf : α → List Bytes} {keysOf' : β → List Bytes}
    {f : α → β} (h : ∀ a, keysOf' (f a) = keysOf a) (nodes : List α) :
    clausesBehindThen keysOf' (nodes.map f) = clausesBehindThen keysOf nodes := by
  have hact : ∀ a, isAction keysOf' (f a) = isAction keysOf a := fun a => by
    rw [isAction, isAction, h]
  have hclause : ∀ a, isClause keysOf' (f a) = isClause keysOf a := fun a => by
    rw [isClause, isClause, h]
  rcases @order_cases _ keysOf nodes with hnone | ⟨front, t, rest, rfl, ht, hrest, -⟩
      | ⟨front, t, mid, c, back, rfl, ht, -, hrest, -⟩
  · rw [clausesBehindThen_of_no_action hnone, clausesBehindThen_of_no_action]
    intro b hb
    obtain ⟨a, ha, rfl⟩ := List.mem_map.mp hb
    rw [hact, hnone a ha]
  all_goals
    rw [clausesBehindThen_split ht hrest, List.map_append, List.map_cons,
      clausesBehindThen_split ((hact t).trans ht), List.countP_map]
    · exact List.countP_congr fun a _ => by rw [Function.comp_apply, hclause]
    · intro b hb
      obtain ⟨a, ha, rfl⟩ := List.mem_map.mp hb
      rw [hact, hrest a ha]

theorem canonicalEach_eq_map (nodes : List Node) : canonicalEach nodes = nodes.map Node.canonical := by
  induction nodes with
  | nil => rfl
  | cons n rest ih => rw [canonicalEach, ih, List.map_cons]

theorem canonical_keys (n : Node) : (Node.canonical n).keys = n.keys := by
  obtain ⟨head, children⟩ := n
  rfl

/-- The two ways to put a forest in order: each node and then the siblings, or the other
way round. -/
theorem canonicalForest_eq_map (nodes : List Node) :
    canonicalForest nodes = (canonicalOrder (fun n => n.keys) nodes).map Node.canonical := by
  rw [canonicalForest, canonicalEach_eq_map]
  exact @canonicalOrder_map Node Node (fun n => n.keys) (fun n => n.keys) Node.canonical
    canonical_keys nodes

/-- One clause fewer stands behind the `then` of a tree that was put in order. -/
theorem lateClauses_canonicalForest (nodes : List Node) :
    lateClauses (canonicalForest nodes) = lateClauses nodes - 1 := by
  have hmap := @clausesBehindThen_map Node Node (fun n => n.keys) (fun n => n.keys) Node.canonical
    canonical_keys (canonicalOrder (fun n => n.keys) nodes)
  rw [canonicalForest_eq_map, lateClauses, hmap, clausesBehindThen_canonicalOrder]
  rfl

/-- **Ordering a tree once more** does nothing when nothing stands behind a `then`. -/
theorem canonicalForest_eq_self {nodes : List Node} (h : AtMostLate 0 nodes) :
    canonicalForest nodes = nodes := by
  have heach : ∀ nodes : List Node, NodesForall (fun n => lateClauses n.children ≤ 0) nodes →
      canonicalEach nodes = nodes := by
    intro nodes
    refine forest_induction (motive := fun nodes => NodesForall (fun n => lateClauses n.children ≤ 0)
      nodes → canonicalEach nodes = nodes) (fun _ => rfl) ?_ nodes
    intro n rest ihc ihr h
    rw [nodesForall_cons] at h
    have horder := (canonicalOrder_eq_self_iff n.children).mpr (Nat.le_zero.mp h.1.1)
    rw [canonicalEach, ihr h.2]
    obtain ⟨head, children⟩ := n
    rw [Node.canonical, ihc h.1.2, horder]
  rw [canonicalForest, heach nodes h.2]
  exact (canonicalOrder_eq_self_iff nodes).mpr (Nat.le_zero.mp h.1)

theorem nodesForall_canonicalForest {P Q : Node → Prop} (h : ∀ n, Q (Node.canonical n) → P n)
    (nodes : List Node) : NodesForall Q (canonicalForest nodes) → NodesForall P nodes := by
  refine forest_induction (motive := fun nodes => NodesForall Q (canonicalEach nodes) →
    NodesForall P nodes) (fun _ => trivial) ?_ nodes ∘ fun hall => ?_
  · intro n rest ihc ihr hall
    rw [canonicalEach, nodesForall_cons, canonical_children] at hall
    rw [nodesForall_cons]
    refine ⟨⟨h n hall.1.1, ihc (nodesForall_iff.mpr fun m hm => ?_)⟩, ihr hall.2⟩
    exact nodesForall_iff.mp hall.1.2 m ((canonicalOrder_perm _).mem_iff.mpr hm)
  · exact nodesForall_iff.mpr fun m hm =>
      nodesForall_iff.mp hall m ((canonicalOrder_perm _).mem_iff.mpr hm)

/-- The tree that was put in order has nothing behind a `then` if and only if the tree it
was made of had at most one clause there. -/
theorem atMostLate_canonicalForest (nodes : List Node) :
    AtMostLate 0 (canonicalForest nodes) ↔ AtMostLate 1 nodes := by
  have hlate : ∀ nodes, lateClauses (canonicalForest nodes) ≤ 0 ↔ lateClauses nodes ≤ 1 := by
    intro nodes
    rw [lateClauses_canonicalForest]
    omega
  rw [AtMostLate, AtMostLate, hlate]
  refine and_congr_right fun _ => ⟨?_, ?_⟩
  · refine nodesForall_canonicalForest (fun n hn => ?_) nodes
    rw [canonical_children] at hn
    exact (hlate _).mp hn
  · refine canonicalForest_forall (fun n hn => ?_) nodes
    rw [canonical_children]
    exact (hlate _).mpr hn

/-! ## Texts tell orders apart -/

theorem render_append (indent : ℕ) (nodes nodes' : List Node) :
    render indent (nodes ++ nodes') = render indent nodes ++ render indent nodes' := by
  rw [render_eq_flatMap, render_eq_flatMap, render_eq_flatMap, List.flatMap_append]

theorem canonical_head (n : Node) : (Node.canonical n).toNodeHead = n.toNodeHead := by
  obtain ⟨head, children⟩ := n
  rfl

theorem length_statementText {indent : ℕ} {head : NodeHead} {body body' : Bytes}
    (h : body.length = body'.length) :
    (statementText indent head body).length = (statementText indent head body').length := by
  rw [statementText, statementText]
  split_ifs
  · rfl
  · simp only [List.length_append, h]

theorem length_render_canonicalEach (nodes : List Node) : ∀ indent,
    (render indent (canonicalEach nodes)).length = (render indent nodes).length := by
  refine forest_induction (motive := fun nodes => ∀ indent,
    (render indent (canonicalEach nodes)).length = (render indent nodes).length) (fun _ => rfl) ?_ nodes
  intro n rest ihc ihr indent
  have hperm : (render (indent + 1) (canonicalForest n.children)).length
      = (render (indent + 1) (canonicalEach n.children)).length := by
    rw [canonicalForest, render_eq_flatMap, render_eq_flatMap]
    exact ((canonicalOrder_perm _).flatMap_right _).length_eq
  rw [canonicalEach, render_cons, render_cons, List.length_append, List.length_append, ihr,
    canonical_head, canonical_children, length_statementText (hperm.trans (ihc (indent + 1)))]

/-- The order of siblings changes no length. -/
theorem length_render_canonicalForest (nodes : List Node) (indent : ℕ) :
    (render indent (canonicalForest nodes)).length = (render indent nodes).length := by
  rw [← length_render_canonicalEach nodes indent, canonicalForest, render_eq_flatMap,
    render_eq_flatMap]
  exact ((canonicalOrder_perm _).flatMap_right _).length_eq

/-- What it takes to read the text of one node back. -/
structure Readable (n : Node) : Prop where
  ok : NodeOk n
  lists : listsReadBack n.toNodeHead = true
  keys : (statementLexemes n.toNodeHead).length ≤ maxParseNodes

/-- A statement is read back with its keys, whatever its body. -/
theorem parseStatement_coreHead {n : Node} (h : Readable n) (indent : ℕ) (body tail : Bytes) :
    ∃ node, (parseStatement (fun p => ([], p))
        (newParser (statementText indent n.toNodeHead body ++ tail))).1 = some node
      ∧ coreHead node.toNodeHead = coreHead n.toNodeHead := by
  have hl : Ahead (newParser (statementText indent n.toNodeHead body ++ tail)).lexer
      (statementText indent n.toNodeHead body ++ tail) := ⟨rfl, [], (by rintro _ ⟨⟩), rfl⟩
  have hbud : 0 + (statementLexemes n.toNodeHead).length ≤ maxParseNodes := by
    rw [Nat.zero_add]
    exact h.keys
  by_cases hleaf : n.isLeaf = true
  · obtain ⟨node, l, hparse, hcore, -⟩ :=
      parseStatement_leaf_reads (fun p => ([], p)) h.ok h.lists hleaf hl hbud
    rw [core_eq, core_eq] at hcore
    exact ⟨node, by rw [hparse], congrArg Node.toNodeHead hcore⟩
  · obtain ⟨head, l, hparse, hcore, -⟩ :=
      parseStatement_block_reads (fun p => ([], p)) h.ok h.lists (Bool.eq_false_iff.mpr hleaf) hl hbud
    exact ⟨⟨head, _⟩, by rw [hparse], hcore⟩

/-- Texts that start with statements of different keys are different. -/
theorem keys_of_statementText {n m : Node} (hn : Readable n) (hm : Readable m) {indent : ℕ}
    {body body' tail tail' : Bytes}
    (h : statementText indent n.toNodeHead body ++ tail
      = statementText indent m.toNodeHead body' ++ tail') : n.keys = m.keys := by
  obtain ⟨node, hnode, hcore⟩ := parseStatement_coreHead hn indent body tail
  obtain ⟨node', hnode', hcore'⟩ := parseStatement_coreHead hm indent body' tail'
  rw [h, hnode'] at hnode
  obtain rfl := Option.some.inj hnode
  exact (coreHead_fields (hcore.symm.trans hcore')).1

/-- A tree whose text is the same in canonical order has no clause behind a `then` of its
first level. -/
theorem lateClauses_of_render {nodes : List Node} {indent : ℕ} (hread : ∀ n ∈ nodes, Readable n)
    (h : render indent (canonicalForest nodes) = render indent nodes) : lateClauses nodes = 0 := by
  by_contra hlate
  rcases @order_cases _ (fun n : Node => n.keys) nodes with hnone
      | ⟨front, t, rest, rfl, ht, hrest, hclause⟩
      | ⟨front, t, mid, c, back, rfl, ht, hc, hrest, hback⟩
  · exact hlate (clausesBehindThen_of_no_action hnone)
  · exact hlate ((canonicalOrder_eq_self_iff _).mp (canonicalOrder_of_no_clause ht hrest hclause))
  · -- where the `then` was written, the text goes on with the clause
    rw [canonicalForest_eq_map, canonicalOrder_move ht hc hrest hback, List.map_append,
      List.map_cons, render_append, render_append, ← canonicalEach_eq_map, render_cons, render_cons]
      at h
    have hrest' := (List.append_inj h (length_render_canonicalEach front indent)).2
    rw [canonical_head] at hrest'
    have hkeys : c.keys = t.keys :=
      keys_of_statementText (hread c (by simp)) (hread t (by simp)) hrest'
    have hact : isAction (fun n : Node => n.keys) c = isAction (fun n : Node => n.keys) t := by
      rw [isAction, isAction, hkeys]
    rw [not_isAction_of_isClause hc, ht] at hact
    cases hact

theorem body_of_statementText {indent : ℕ} {head : NodeHead} {body body' tail tail' : Bytes}
    (hleaf : head.isLeaf = false) (hlen : body.length = body'.length)
    (h : statementText indent head body ++ tail = statementText indent head body' ++ tail') :
    body = body' := by
  have htext := (List.append_inj h (length_statementText hlen)).1
  rw [statementText, statementText, if_neg (Bool.eq_false_iff.mp hleaf),
    if_neg (Bool.eq_false_iff.mp hleaf)] at htext
  have hbody := List.append_cancel_left htext
  rw [List.append_assoc, List.append_assoc, List.append_assoc, List.append_assoc] at hbody
  exact (List.append_inj (List.append_cancel_left hbody) hlen).1

/-- Sibling by sibling, the bodies are the same text. -/
theorem bodies_of_render {nodes : List Node} {indent : ℕ} (hok : ∀ n ∈ nodes, NodeOk n)
    (h : render indent (canonicalEach nodes) = render indent nodes) :
    ∀ n ∈ nodes, render (indent + 1) (canonicalForest n.children)
      = render (indent + 1) n.children := by
  induction nodes with
  | nil => exact fun n hn => absurd hn List.not_mem_nil
  | cons n rest ih =>
    rw [canonicalEach, render_cons, render_cons, canonical_head, canonical_children] at h
    have hlen := length_render_canonicalForest n.children (indent + 1)
    have hrest := (List.append_inj h (length_statementText hlen)).2
    intro m hm
    rcases List.mem_cons.mp hm with rfl | hm
    · by_cases hleaf : m.isLeaf = true
      · rw [(hok m List.mem_cons_self).leaf hleaf]
        rfl
      · exact body_of_statementText (Bool.eq_false_iff.mpr hleaf) hlen h
    · exact ih (fun n hn => hok n (List.mem_cons_of_mem _ hn)) hrest m hm

/-- **A tree whose text does not change when it is put in order** has no clause behind a
`then` anywhere. -/
theorem atMostLate_of_render (nodes : List Node) : ∀ indent, NodesForall Readable nodes →
    render indent (canonicalForest nodes) = render indent nodes → AtMostLate 0 nodes := by
  refine level_induction (motive := fun nodes => ∀ indent, NodesForall Readable nodes →
    render indent (canonicalForest nodes) = render indent nodes → AtMostLate 0 nodes) ?_ nodes
  intro nodes ih indent hread h
  have hnodes := nodesForall_iff.mp hread
  have hlate := lateClauses_of_render (fun n hn => (hnodes n hn).1) h
  have horder : canonicalForest nodes = canonicalEach nodes := by
    rw [canonicalForest_eq_map, (canonicalOrder_eq_self_iff nodes).mpr hlate, canonicalEach_eq_map]
  rw [horder] at h
  have hbodies := bodies_of_render (fun n hn => (hnodes n hn).1.ok) h
  refine ⟨hlate.le, nodesForall_iff.mpr fun n hn => ?_⟩
  have hn' := ih n hn (indent + 1) (hnodes n hn).2 (hbodies n hn)
  exact ⟨hn'.1, hn'.2⟩

/-! ## Formatting twice -/

/-- A statement that fits the budget where it stands fits it at the start. -/
theorem statementLexemes_of_fits (nodes : List Node) : ∀ count, fitsBudget count nodes = true →
    NodesForall (fun n => (statementLexemes n.toNodeHead).length ≤ maxParseNodes) nodes := by
  refine forest_induction (motive := fun nodes => ∀ count, fitsBudget count nodes = true →
    NodesForall (fun n => (statementLexemes n.toNodeHead).length ≤ maxParseNodes) nodes)
    (fun _ _ => trivial) ?_ nodes
  rintro ⟨head, children⟩ rest ihc ihr count h
  rw [fitsBudget, Node.fitsBudget] at h
  simp only [Bool.and_eq_true, decide_eq_true_eq] at h
  rw [nodesForall_cons]
  refine ⟨⟨?_, ihc count h.1.2⟩, ihr _ h.2⟩
  rw [statementLexemes_length]
  exact (Nat.le_add_left _ _).trans h.1.1.2

theorem readable_of_readsBack {nodes : List Node} (hok : NodesForall NodeOk nodes)
    (h : ReadsBack maxParseDepth 0 nodes) : NodesForall Readable nodes := by
  have hkeys := statementLexemes_of_fits nodes 0 h.budget
  have hlists := h.lists
  clear h
  refine forest_induction (motive := fun nodes => NodesForall NodeOk nodes →
    NodesForall (fun n => listsReadBack n.toNodeHead = true) nodes →
    NodesForall (fun n => (statementLexemes n.toNodeHead).length ≤ maxParseNodes) nodes →
    NodesForall Readable nodes) (fun _ _ _ => trivial) ?_ nodes hok hlists hkeys
  intro n rest ihc ihr hok hlists hkeys
  rw [nodesForall_cons] at hok hlists hkeys ⊢
  exact ⟨⟨⟨hok.1.1, hlists.1.1, hkeys.1.1⟩, ihc hok.1.2 hlists.1.2 hkeys.1.2⟩,
    ihr hok.2 hlists.2 hkeys.2⟩

/-- The formatted text is accepted, and formatting what is read gives the same text. -/
def FormatSettles (tree : List Node) : Prop :=
  ∃ tree', parse (format tree) = (tree', []) ∧ format tree' = format tree

theorem formatSettles_iff {tree : List Node} (hok : NodesForall NodeOk tree)
    (hclosed : NodesForall (fun n => dropsOnceClosed n.toNodeHead = false) tree)
    (hreads : ReadsBack maxParseDepth 0 (canonicalForest tree)) :
    FormatSettles tree ↔ AtMostLate 1 tree := by
  obtain ⟨tree', hparse, hsame⟩ := sameTexts_parse hok hclosed hreads
  -- what is read is written like the tree in canonical order
  have hformat : format tree' = render 0 (canonicalForest (canonicalForest tree)) := by
    rw [format, formatNodes_same hsame, formatNodes_eq]
  have hfirst : format tree = render 0 (canonicalForest tree) := by rw [format, formatNodes_eq]
  rw [← atMostLate_canonicalForest]
  constructor
  · rintro ⟨tree'', hparse', htext⟩
    obtain rfl : tree' = tree'' := congrArg Prod.fst (hparse.symm.trans hparse')
    rw [hformat, hfirst] at htext
    have hok' := canonicalForest_forall nodeOk_canonical _ hok
    exact atMostLate_of_render _ 0 (readable_of_readsBack hok' hreads) htext
  · intro hlate
    refine ⟨tree', hparse, ?_⟩
    rw [hformat, hfirst, canonicalForest_eq_self hlate]

/-- **The display order.** The order of a sibling list is stable if and only if at most one
`match` or `from` stands behind its last `then`; and an accepted configuration whose
formatted text reads back, and which has no unclosed list that loses its brackets once it
is closed, is formatted the same way again if and only if all its sibling lists are of this
kind. -/
theorem displayOrder_stable_iff (nodes : List Node) (input : Bytes) :
    (StableOrder (fun n => n.keys) nodes ↔ lateClauses nodes ≤ 1)
      ∧ ((parse input).2 = [] →
          ReadsBack maxParseDepth 0 (canonicalForest (parse input).1) →
          NodesForall (fun n => dropsOnceClosed n.toNodeHead = false) (parse input).1 →
          (FormatSettles (parse input).1 ↔ AtMostLate 1 (parse input).1)) := by
  refine ⟨stableOrder_iff nodes, fun haccepted hreads hclosed => ?_⟩
  exact formatSettles_iff (forest_nodesOk (parse_forest haccepted)) hclosed hreads

/-- A filter term with one `from`, behind its `then`, is shown in order and stays so. -/
theorem displayOrder_stable_term :
    FormatSettles (parse (bytes "term a \x7b then accept; from \x7b protocol tcp; \x7d \x7d")).1 :=
  ((displayOrder_stable_iff []
    (bytes "term a \x7b then accept; from \x7b protocol tcp; \x7d \x7d")).2 (by decide +kernel)
    ⟨by decide +kernel, by decide +kernel, by decide +kernel⟩ (by decide +kernel)).mpr
    ⟨by decide +kernel, by decide +kernel⟩

/-- With two `from` behind the `then`, the second one is shown first, and formatting what
was formatted moves the other. -/
theorem displayOrder_unstable :
    (parse (bytes "a \x7b then x; from y; from z; \x7d")).2 = []
      ∧ (∃ n ∈ (parse (bytes "a \x7b then x; from y; from z; \x7d")).1,
          ¬ StableOrder (fun n => n.keys) n.children)
      ∧ ¬ FormatSettles (parse (bytes "a \x7b then x; from y; from z; \x7d")).1 := by
  have htwice : format (parse (format (parse (bytes "a \x7b then x; from y; from z; \x7d")).1)).1
      ≠ format (parse (bytes "a \x7b then x; from y; from z; \x7d")).1 := by decide +kernel
  have hmoves : ∃ n ∈ (parse (bytes "a \x7b then x; from y; from z; \x7d")).1,
      canonicalOrder (fun n => n.keys) (canonicalOrder (fun n => n.keys) n.children)
        ≠ canonicalOrder (fun n => n.keys) n.children := by decide +kernel
  refine ⟨by decide +kernel, ?_, ?_⟩
  · obtain ⟨n, hn, hmoves⟩ := hmoves
    exact ⟨n, hn, fun h => hmoves h.idempotent⟩
  · rintro ⟨tree', hparse, hformat⟩
    rw [hparse] at htwice
    exact htwice hformat

end Xpf.ConfigSettled
