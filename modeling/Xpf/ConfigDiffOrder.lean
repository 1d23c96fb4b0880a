/-
`ConfigDiffOrder.lean` -- what of a diff depends on the order of a Go map.

`alignSiblings` finds the pairs of siblings by ranging over a map, so the order of its
pairs is Go's choice. Almost nothing looks at that order: moves are found on the sorted
pairs, and a level with lines of its own is written in the order of the two lists. Only a
level that is descended through writes its blocks in the order of the pairs. So the diff
is determined when no such level has changed blocks of two identities (`descendsOnce`),
and otherwise need not be (`formatCompare_unordered`).
-/
import Xpf.ConfigDiff

set_option autoImplicit false

namespace Xpf.ConfigDiffOrder

open Xpf.GoStrings Xpf.ConfigAst Xpf.ConfigParser Xpf.ConfigCompare Xpf.ConfigContent Xpf.ConfigAlign
  Xpf.ConfigDiff

/-! ## The condition -/

/-- The changed siblings share one identity. -/
def oneIdentity (entries : List DiffEntry) : Bool :=
  entries.all fun e => entries.all fun e' =>
    keyProvenanceID e.oldNode.toNodeHead == keyProvenanceID e'.oldNode.toNodeHead

/-- The condition at one level, with the ones below as a parameter. -/
def levelDescendsOnce (below : List (List Node → Bool)) (old new : List Node) : Bool :=
  let al := alignSiblings id old new
  let entries := changedEntries al old new
  (!descends al entries || oneIdentity entries)
    && entries.all fun e => e.moved || !sameBlock e.oldNode.toNodeHead e.newNode.toNodeHead
      || below[e.oldIdx]?.all fun cond => cond e.newNode.children

mutual

/-- The condition on the children of a node. -/
def Node.descendsOnceBelow : Node → List Node → Bool
  | ⟨_, children⟩ => levelDescendsOnce (descendsOncesBelow children) children

/-- The conditions on the children of each sibling. -/
def descendsOncesBelow : List Node → List (List Node → Bool)
  | [] => []
  | n :: rest => Node.descendsOnceBelow n :: descendsOncesBelow rest

end

/-- At every level that is only descended through, the changed siblings share one
identity. -/
def descendsOnce (old new : List Node) : Bool :=
  levelDescendsOnce (descendsOncesBelow old) old new

theorem oneIdentity_perm {entries entries' : List DiffEntry} (h : entries.Perm entries') :
    oneIdentity entries = oneIdentity entries' := by
  rw [Bool.eq_iff_iff]
  simp only [oneIdentity, List.all_eq_true, beq_iff_eq, h.mem_iff]

/-! ## Alignments in two orders -/

section

variable {order order' : List Bytes → List Bytes} {old new : List Node}
  (hperm : (order (identities old)).Perm (identities old))
  (hperm' : (order' (identities old)).Perm (identities old))
include hperm hperm'

theorem pairs_perm :
    (alignSiblings order old new).pairs.Perm (alignSiblings order' old new).pairs := by
  rw [pairs_eq, pairs_eq]
  exact List.Perm.flatMap_right _ (hperm.trans hperm'.symm)

theorem onLis_congr :
    onLis (alignSiblings order old new).pairs = onLis (alignSiblings order' old new).pairs := by
  have hnodup : ((alignSiblings order old new).pairs.map (·.1)).Nodup := pairs_fst_nodup hperm
  have hsorted := inOldOrder_congr (pairs_perm hperm hperm') hnodup
  rw [onLis, onLis, ← inOldOrder, ← inOldOrder, hsorted]

theorem movedOld_congr (i : ℕ) :
    (alignSiblings order old new).movedOld.contains i
      = (alignSiblings order' old new).movedOld.contains i := by
  rw [Bool.eq_iff_iff, List.contains_iff_mem, List.contains_iff_mem, mem_movedOld, mem_movedOld,
    onLis_congr hperm hperm']
  simp only [(pairs_perm hperm hperm').mem_iff]

theorem movedNew_congr (i : ℕ) :
    (alignSiblings order old new).movedNew.contains i
      = (alignSiblings order' old new).movedNew.contains i := by
  rw [Bool.eq_iff_iff, List.contains_iff_mem, List.contains_iff_mem, mem_movedNew, mem_movedNew,
    onLis_congr hperm hperm']
  simp only [(pairs_perm hperm hperm').mem_iff]

theorem oldOnly_congr :
    (alignSiblings order old new).oldOnly = (alignSiblings order' old new).oldOnly := by
  refine List.filter_congr fun i _ => ?_
  rw [Bool.eq_iff_iff]
  simp only [Bool.not_eq_true', List.contains_eq_mem, decide_eq_false_iff_not]
  exact not_congr ((pairs_perm hperm hperm').map _).mem_iff

theorem newOnly_congr :
    (alignSiblings order old new).newOnly = (alignSiblings order' old new).newOnly := by
  refine List.filter_congr fun i _ => ?_
  rw [Bool.eq_iff_iff]
  simp only [Bool.not_eq_true', List.contains_eq_mem, decide_eq_false_iff_not]
  exact not_congr ((pairs_perm hperm hperm').map _).mem_iff

theorem changedEntry_congr :
    changedEntry (alignSiblings order old new) old new
      = changedEntry (alignSiblings order' old new) old new := by
  funext p
  rw [changedEntry, changedEntry, movedOld_congr hperm hperm']

theorem changedEntries_perm :
    (changedEntries (alignSiblings order old new) old new).Perm
      (changedEntries (alignSiblings order' old new) old new) := by
  rw [changedEntries, changedEntries, changedEntry_congr hperm hperm']
  exact (pairs_perm hperm hperm').filterMap _

theorem descends_congr :
    descends (alignSiblings order old new) (changedEntries (alignSiblings order old new) old new)
      = descends (alignSiblings order' old new)
          (changedEntries (alignSiblings order' old new) old new) := by
  rw [Bool.eq_iff_iff, descends_iff, descends_iff, oldOnly_congr hperm hperm',
    newOnly_congr hperm hperm']
  simp only [(changedEntries_perm hperm hperm').mem_iff]

/-- **The sections of a level do not depend on the order.** -/
theorem sections_congr :
    sections (alignSiblings order old new) old new = sections (alignSiblings order' old new) old new := by
  have hold : ∀ t : Node × ℕ, oldSections (alignSiblings order old new) t.1 t.2
      = oldSections (alignSiblings order' old new) t.1 t.2 := by
    intro t
    rw [oldSections, oldSections, oldOnly_congr hperm hperm', movedOld_congr hperm hperm']
  have hfind : ∀ ni, (alignSiblings order old new).pairs.find? (·.2 == ni)
      = (alignSiblings order' old new).pairs.find? (·.2 == ni) := by
    intro ni
    cases hf : (alignSiblings order old new).pairs.find? (·.2 == ni) with
    | none =>
      refine (List.find?_eq_none.mpr fun p hp => ?_).symm
      exact List.find?_eq_none.mp hf p ((pairs_perm hperm hperm').mem_iff.mpr hp)
    | some p =>
      have hp : p.2 = ni := by simpa using List.find?_some hf
      rw [← hp]
      exact (find_newIdx hperm'
        ((pairs_perm hperm hperm').mem_iff.mp (List.mem_of_find?_eq_some hf))).symm
  have hnew : ∀ t : Node × ℕ, newSections (alignSiblings order old new) old t.1 t.2
      = newSections (alignSiblings order' old new) old t.1 t.2 := by
    intro t
    rw [newSections, newSections, hfind, movedNew_congr hperm hperm']
  rw [sections, sections, List.flatMap_congr fun t _ => hold t, List.flatMap_congr fun t _ => hnew t]

end

/-! ## The order of the entries -/

/-- A concatenation with one nonempty part. -/
theorem flatMap_eq_of_unique {α β : Type} {g : α → List β} {a : α} {l : List α} (hnodup : l.Nodup)
    (ha : a ∈ l) (hothers : ∀ b ∈ l, b ≠ a → g b = []) : l.flatMap g = g a := by
  induction l with
  | nil => exact absurd ha List.not_mem_nil
  | cons b l ih =>
    obtain ⟨hb, hnodup⟩ := List.nodup_cons.mp hnodup
    rw [List.flatMap_cons]
    rcases List.mem_cons.mp ha with rfl | ha
    · have hnil : l.flatMap g = [] := by
        refine List.flatMap_eq_nil_iff.mpr fun c hc => hothers c (List.mem_cons_of_mem _ hc) ?_
        rintro rfl
        exact hb hc
      rw [hnil, List.append_nil]
    · rw [hothers b List.mem_cons_self (fun h => hb (h ▸ ha)), List.nil_append]
      exact ih hnodup ha fun c hc => hothers c (List.mem_cons_of_mem _ hc)

section

variable {order order' : List Bytes → List Bytes} {old new : List Node}

/-- The entries of one identity. -/
def entriesOf (al : SiblingAlignment) (old new : List Node) (id : Bytes) : List DiffEntry :=
  (groupPairs (equalAt old new) (indicesOf id old) (indicesOf id new)).filterMap
    (changedEntry al old new)

theorem changedEntries_eq :
    changedEntries (alignSiblings order old new) old new
      = (order (identities old)).flatMap (entriesOf (alignSiblings order old new) old new) := by
  rw [changedEntries, pairs_eq, List.filterMap_flatMap]
  rfl

theorem entriesOf_id {id : Bytes} {e : DiffEntry}
    (h : e ∈ entriesOf (alignSiblings order old new) old new id) :
    keyProvenanceID e.oldNode.toNodeHead = id := by
  obtain ⟨p, hp, he⟩ := List.mem_filterMap.mp h
  obtain ⟨hfst, -, hsnd⟩ := groupPairs_spec (equalAt old new) (indicesOf_nodup id old)
    (indicesOf_nodup id new)
  obtain ⟨o, ho, hid⟩ := mem_indicesOf.mp (hfst.subset (List.mem_map_of_mem hp))
  obtain ⟨n, hn, -⟩ := mem_indicesOf.mp (hsnd p hp)
  rw [changedEntry, ho, hn] at he
  dsimp only at he
  split_ifs at he
  rw [← Option.some.inj he]
  exact hid

variable (hperm : (order (identities old)).Perm (identities old))
  (hperm' : (order' (identities old)).Perm (identities old))
include hperm hperm'

/-- **Entries of one identity come in one order.** -/
theorem changedEntries_congr
    (hone : oneIdentity (changedEntries (alignSiblings order old new) old new) = true) :
    changedEntries (alignSiblings order old new) old new
      = changedEntries (alignSiblings order' old new) old new := by
  have hgroups : entriesOf (alignSiblings order' old new) old new
      = entriesOf (alignSiblings order old new) old new := by
    funext id
    rw [entriesOf, entriesOf, changedEntry_congr hperm hperm']
  simp only [oneIdentity, List.all_eq_true, beq_iff_eq] at hone
  rw [changedEntries_eq] at hone ⊢
  rw [changedEntries_eq, hgroups]
  cases hentries : (order (identities old)).flatMap
      (entriesOf (alignSiblings order old new) old new) with
  | nil =>
    refine (List.flatMap_eq_nil_iff.mpr fun id hid => ?_).symm
    exact List.flatMap_eq_nil_iff.mp hentries id ((hperm.trans hperm'.symm).mem_iff.mpr hid)
  | cons e rest =>
    -- all groups but that of `e` are empty
    have he : e ∈ (order (identities old)).flatMap
        (entriesOf (alignSiblings order old new) old new) := hentries ▸ List.mem_cons_self
    obtain ⟨a, ha, hea⟩ := List.mem_flatMap.mp he
    have hothers : ∀ b ∈ order (identities old), b ≠ a →
        entriesOf (alignSiblings order old new) old new b = [] := by
      intro b hb hne
      refine List.eq_nil_iff_forall_not_mem.mpr fun e' he' => hne ?_
      rw [← entriesOf_id he', ← entriesOf_id hea]
      exact hone e' (List.mem_flatMap.mpr ⟨b, hb, he'⟩) e he
    rw [← hentries, flatMap_eq_of_unique (order_nodup hperm) ha hothers]
    refine (flatMap_eq_of_unique (order_nodup hperm') ((hperm.trans hperm'.symm).mem_iff.mp ha) ?_).symm
    exact fun b hb => hothers b ((hperm.trans hperm'.symm).mem_iff.mpr hb)

end

/-! ## One level -/

theorem writeSections_congr {header : Bytes} {hasOwn : Bool} {recurse recurse' : ℕ → Node → Node → Bytes}
    {all : List Section} (h : ∀ oi o n, Section.arm oi o n ∈ all → recurse oi o n = recurse' oi o n) :
    ∀ pending, writeSections header hasOwn recurse pending all
      = writeSections header hasOwn recurse' pending all := by
  induction all with
  | nil => exact fun _ => rfl
  | cons s rest ih =>
    intro pending
    have ih := ih fun oi o n hmem => h oi o n (List.mem_cons_of_mem _ hmem)
    cases s with
    | own text => rw [writeSections, writeSections, ih]
    | arm oi o n => rw [writeSections, writeSections, h oi o n List.mem_cons_self, ih]

section

variable {order : List Bytes → List Bytes} {old new : List Node}

theorem arm_notin_addOwn {oi : ℕ} {o n : Node} (text : Bytes) : Section.arm oi o n ∉ addOwn text := by
  intro h
  rw [addOwn] at h
  split_ifs at h
  · exact List.not_mem_nil h
  · cases List.mem_singleton.mp h

theorem pairedSections_arm {oi oi' : ℕ} {o o' n n' : Node}
    (h : Section.arm oi' o' n' ∈ pairedSections oi o n) :
    (oi', o', n') = (oi, o, n) ∧ nodesEqual o n = false
      ∧ sameBlock o.toNodeHead n.toNodeHead = true := by
  rw [pairedSections] at h
  split_ifs at h with hequal hannotated hblock
  · exact absurd h (arm_notin_addOwn _)
  · rcases List.mem_append.mp h with h | h
    · exact absurd h (arm_notin_addOwn _)
    · obtain ⟨rfl, rfl, rfl⟩ := Section.arm.inj (List.mem_singleton.mp h)
      exact ⟨rfl, by simpa using hequal, (Bool.and_eq_true_iff.mp hannotated).2⟩
  · obtain ⟨rfl, rfl, rfl⟩ := Section.arm.inj (List.mem_singleton.mp h)
    exact ⟨rfl, by simpa using hequal, hblock⟩
  · exact absurd h (arm_notin_addOwn _)

/-- A recursion arm is an unmoved entry with two blocks. -/
theorem sections_arm (hperm : (order (identities old)).Perm (identities old)) {oi : ℕ} {o n : Node}
    (h : Section.arm oi o n ∈ sections (alignSiblings order old new) old new) :
    ⟨oi, o, n, false⟩ ∈ changedEntries (alignSiblings order old new) old new
      ∧ sameBlock o.toNodeHead n.toNodeHead = true := by
  rcases List.mem_append.mp h with h | h
  · obtain ⟨t, -, h⟩ := List.mem_flatMap.mp h
    rw [oldSections] at h
    split_ifs at h
    · exact absurd h (arm_notin_addOwn _)
    · exact absurd h List.not_mem_nil
  · obtain ⟨⟨n', ni⟩, ht, h⟩ := List.mem_flatMap.mp h
    have hn := List.mem_zipIdx_iff_getElem?.mp ht
    dsimp only at h hn
    rw [newSections] at h
    split at h
    · exact absurd h (arm_notin_addOwn _)
    · rename_i p hfind
      have hp := List.mem_of_find?_eq_some hfind
      have hpni : p.2 = ni := by simpa using List.find?_some hfind
      split_ifs at h with hmoved
      · exact absurd h (arm_notin_addOwn _)
      · split at h
        · exact absurd h List.not_mem_nil
        · rename_i o' ho
          obtain ⟨heq, hne, hblock⟩ := pairedSections_arm h
          obtain ⟨rfl, rfl, rfl⟩ := heq
          refine ⟨mem_changedEntries.mpr ⟨p.2, hp, ho, hpni ▸ hn, ?_, .inr hne⟩, hblock⟩
          refine ⟨fun hf => absurd hf Bool.false_ne_true, fun hin => absurd ?_ hmoved⟩
          obtain ⟨q, hq, hlis, hqp⟩ := mem_movedOld.mp hin
          obtain rfl := List.inj_on_of_nodup_map (pairs_fst_nodup hperm) hq hp hqp
          exact List.contains_iff_mem.mpr (mem_movedNew.mpr ⟨q, hq, hlis, hpni⟩)

variable {order' : List Bytes → List Bytes}
  (hperm : (order (identities old)).Perm (identities old))
  (hperm' : (order' (identities old)).Perm (identities old))
include hperm hperm'

/-- **One level in two orders**: the same text, if a level that is descended through has
changes of one identity and the blocks below are written alike. -/
theorem diffLevel_congr {recurse recurse' : ℕ → Node → Node → Bytes} {editPath : List Bytes}
    (hone : descends (alignSiblings order old new)
        (changedEntries (alignSiblings order old new) old new) = true →
      oneIdentity (changedEntries (alignSiblings order old new) old new) = true)
    (hrec : ∀ e ∈ changedEntries (alignSiblings order old new) old new, e.moved = false →
      sameBlock e.oldNode.toNodeHead e.newNode.toNodeHead = true →
      recurse e.oldIdx e.oldNode e.newNode = recurse' e.oldIdx e.oldNode e.newNode) :
    diffLevel recurse (alignSiblings order old new) old new editPath
      = diffLevel recurse' (alignSiblings order' old new) old new editPath := by
  have hempty : (changedEntries (alignSiblings order old new) old new).isEmpty
      = (changedEntries (alignSiblings order' old new) old new).isEmpty := by
    rw [Bool.eq_iff_iff, List.isEmpty_iff, List.isEmpty_iff, ← List.length_eq_zero_iff,
      ← List.length_eq_zero_iff, (changedEntries_perm hperm hperm').length_eq]
  rw [diffLevel, diffLevel]
  dsimp only
  rw [hempty, oldOnly_congr hperm hperm', newOnly_congr hperm hperm', descends_congr hperm hperm',
    sections_congr hperm hperm']
  split_ifs with hsame hdescends
  · rfl
  · rw [← descends_congr hperm hperm'] at hdescends
    obtain ⟨-, -, hmoves, hall⟩ := descends_iff.mp hdescends
    rw [← changedEntries_congr hperm hperm' (hone hdescends)]
    refine List.flatMap_congr fun e he => hrec e he (hmoves e he) ?_
    exact (Bool.and_eq_true_iff.mp (hall e he)).1
  · refine writeSections_congr (fun oi o n harm => ?_) _
    rw [← sections_congr hperm hperm'] at harm
    obtain ⟨he, hblock⟩ := sections_arm hperm harm
    exact hrec _ he rfl hblock

end

/-! ## The whole diff -/

theorem descendsOncesBelow_eq_map (nodes : List Node) :
    descendsOncesBelow nodes = nodes.map Node.descendsOnceBelow := by
  induction nodes with
  | nil => rfl
  | cons n rest ih => rw [descendsOncesBelow, ih, List.map_cons]

theorem descendsOnce_level {old new : List Node} (h : descendsOnce old new = true) :
    (descends (alignSiblings id old new) (changedEntries (alignSiblings id old new) old new) = true →
      oneIdentity (changedEntries (alignSiblings id old new) old new) = true)
      ∧ ∀ e ∈ changedEntries (alignSiblings id old new) old new, e.moved = false →
        sameBlock e.oldNode.toNodeHead e.newNode.toNodeHead = true →
        descendsOnce e.oldNode.children e.newNode.children = true := by
  rw [descendsOnce, levelDescendsOnce, descendsOncesBelow_eq_map] at h
  obtain ⟨hone, hbelow⟩ := Bool.and_eq_true_iff.mp h
  constructor
  · intro hdescends
    rw [hdescends] at hone
    exact hone
  · intro e he hmoved hblock
    obtain ⟨-, -, ho, -⟩ := mem_changedEntries.mp he
    have hcond := List.all_eq_true.mp hbelow e he
    rw [hmoved, hblock, List.getElem?_map, ho] at hcond
    obtain ⟨oi, ⟨head, children⟩, n, moved⟩ := e
    exact hcond

theorem diffNodes_congr (maps maps' : MapOrder) (old : List Node) :
    ∀ new call editPath, descendsOnce old new = true →
      diffNodes maps old new call editPath = diffNodes maps' old new call editPath := by
  refine level_induction (motive := fun old => ∀ new call editPath, descendsOnce old new = true →
    diffNodes maps old new call editPath = diffNodes maps' old new call editPath) ?_ old
  intro old ih new call editPath h
  obtain ⟨hone, hbelow⟩ := descendsOnce_level h
  -- the condition is about the alignment in the order `id`, which only reorders the entries
  have hid : (id (identities old)).Perm (identities old) := List.Perm.refl _
  have hperm := maps.perm call (identities old)
  have hentries : (changedEntries (alignSiblings (maps.order call) old new) old new).Perm
      (changedEntries (alignSiblings id old new) old new) := changedEntries_perm hperm hid
  refine diffLevel_congr hperm (maps'.perm call (identities old)) (fun hdescends => ?_)
    fun e he hmoved hblock => ?_
  · rw [descends_congr hperm hid] at hdescends
    rw [← hone hdescends]
    exact oneIdentity_perm hentries
  · obtain ⟨-, -, ho, -⟩ := mem_changedEntries.mp he
    rw [recurseInto_eq ho, recurseInto_eq ho]
    exact ih e.oldNode (List.mem_of_getElem? ho) _ _ _
      (hbelow e (hentries.mem_iff.mp he) hmoved hblock)

/-- **The diff does not depend on the orders of the maps**, if no level that is only
descended through has changed siblings of two identities. -/
theorem formatCompare_ordered (maps maps' : MapOrder) (old new : List Node)
    (h : descendsOnce old new = true) : formatCompare maps old new = formatCompare maps' old new :=
  diffNodes_congr maps maps' old new [] [] h

/-- The map ranged over backwards. -/
def lastSeen : MapOrder := ⟨fun _ ids => ids.reverse, fun _ ids => List.reverse_perm ids⟩

theorem formatCompare_ordered_block :
    let old := (parse (bytes "a \x7b x 1; y 1; \x7d b;")).1
    let new := (parse (bytes "a \x7b x 2; y 2; \x7d b;")).1
    descendsOnce old new = true ∧ formatCompare firstSeen old new = formatCompare lastSeen old new :=
  ⟨by decide +kernel, formatCompare_ordered _ _ _ _ (by decide +kernel)⟩

/-- Two changed blocks are written in the order of the map. -/
theorem formatCompare_unordered :
    let old := (parse (bytes "a \x7b x 1; \x7d b \x7b y 1; \x7d")).1
    let new := (parse (bytes "a \x7b x 2; \x7d b \x7b y 2; \x7d")).1
    formatCompare firstSeen old new
        = bytes "[edit a]\n-    x 1;\n+    x 2;\n[edit b]\n-    y 1;\n+    y 2;\n"
      ∧ formatCompare lastSeen old new
        = bytes "[edit b]\n-    y 1;\n+    y 2;\n[edit a]\n-    x 1;\n+    x 2;\n" := by
  constructor <;> decide +kernel

end Xpf.ConfigDiffOrder
