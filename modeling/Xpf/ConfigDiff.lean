/-
`ConfigDiff.lean` -- when `FormatCompare` prints nothing.

A level of the diff prints nothing exactly when nothing changed at it: a removed, added,
moved or modified sibling has a line of its own (`diffLevel_ne_nil`), and a level that is
only descended through hands the question down. So an empty diff means equal siblings at
every position (`diffNodes_nil_iff`), which is equality of contents as long as no keys
are regrouped.
-/
import Xpf.ConfigAlign
import Xpf.ConfigParser

set_option autoImplicit false

namespace Xpf.ConfigDiff

open Xpf.GoStrings Xpf.ConfigAst Xpf.ConfigParser Xpf.ConfigFormat Xpf.ConfigCanonical Xpf.ConfigCompare
  Xpf.ConfigContent Xpf.ConfigAlign

/-! ## Lines of one level -/

theorem formatPrefixed_ne_nil (sign : Bytes) (indent : ℕ) (n : Node) :
    Node.formatPrefixed sign indent n ≠ [] := by
  obtain ⟨head, children⟩ := n
  rw [Node.formatPrefixed]
  refine List.append_ne_nil_of_right_ne_nil _ ?_
  split_ifs
  · decide
  · exact List.append_ne_nil_of_right_ne_nil _ (by decide)

theorem formatAnnotationChange_ne_nil (indent : ℕ) {o n : NodeHead}
    (h : o.annotationText ≠ n.annotationText) : formatAnnotationChange indent o n ≠ [] := by
  rw [formatAnnotationChange]
  by_cases ho : o.annotationText = []
  · have hn : n.annotationText ≠ [] := fun hn => h (ho.trans hn.symm)
    rw [if_neg hn]
    refine List.append_ne_nil_of_right_ne_nil _ ?_
    exact List.append_ne_nil_of_left_ne_nil (s := bytes "+") (by decide) _
  · rw [if_neg ho]
    refine List.append_ne_nil_of_left_ne_nil ?_ _
    exact List.append_ne_nil_of_left_ne_nil (s := bytes "-") (by decide) _

theorem addOwn_mem {text : Bytes} (h : text ≠ []) : Section.own text ∈ addOwn text := by
  rw [addOwn, if_neg h]
  exact List.mem_singleton_self _

/-- Own lines are written. -/
theorem writeSections_ne_nil {header : Bytes} {hasOwn : Bool} {recurse : ℕ → Node → Node → Bytes}
    {text : Bytes} (htext : text ≠ []) : ∀ {pending : Bool} {all : List Section},
    Section.own text ∈ all → writeSections header hasOwn recurse pending all ≠ [] := by
  intro pending all
  induction all generalizing pending with
  | nil => exact fun h => absurd h List.not_mem_nil
  | cons s rest ih =>
    intro h
    cases s with
    | own t =>
      rw [writeSections]
      rcases List.mem_cons.mp h with heq | h
      · obtain rfl := Section.own.inj heq
        refine List.append_ne_nil_of_left_ne_nil ?_ _
        exact List.append_ne_nil_of_right_ne_nil _ htext
      · exact List.append_ne_nil_of_right_ne_nil _ (ih h)
    | arm oi o n =>
      rw [writeSections]
      rcases List.mem_cons.mp h with heq | h
      · cases heq
      · exact List.append_ne_nil_of_right_ne_nil _ (ih h)

/-- A pair in place that cannot be descended into has a line of its own. -/
theorem pairedSections_own {oi : ℕ} {o n : Node} (hne : nodesEqual o n = false)
    (hrec : (sameBlock o.toNodeHead n.toNodeHead && o.annotationText == n.annotationText) = false) :
    ∃ text ≠ [], Section.own text ∈ pairedSections oi o n := by
  rw [pairedSections, if_neg (by rw [hne]; exact Bool.false_ne_true)]
  by_cases hblock : sameBlock o.toNodeHead n.toNodeHead = true
  · have hannotated : o.annotationText ≠ n.annotationText := by
      rw [hblock, Bool.true_and] at hrec
      exact ne_of_beq_false hrec
    have hline := formatAnnotationChange_ne_nil 1 hannotated
    rw [if_pos (by simp [hannotated, hblock])]
    exact ⟨_, hline, List.mem_append_left _ (addOwn_mem hline)⟩
  · have hline := List.append_ne_nil_of_left_ne_nil (formatPrefixed_ne_nil (bytes "-") 1 o)
      (Node.formatPrefixed (bytes "+") 1 n)
    rw [if_neg (by simp [hblock]), if_neg hblock]
    exact ⟨_, hline, addOwn_mem hline⟩

section

variable {order : List Bytes → List Bytes} {old new : List Node}

/-- A removed or moved-out sibling has a line of its own. -/
theorem sections_removed {oi : ℕ} (hlt : oi < old.length)
    (h : oi ∈ (alignSiblings order old new).oldOnly ∨ oi ∈ (alignSiblings order old new).movedOld) :
    ∃ text ≠ [], Section.own text ∈ sections (alignSiblings order old new) old new := by
  refine ⟨_, formatPrefixed_ne_nil (bytes "-") 1 old[oi], List.mem_append_left _ ?_⟩
  refine List.mem_flatMap.mpr ⟨(old[oi], oi), ?_, ?_⟩
  · exact List.mem_zipIdx_iff_getElem?.mpr (List.getElem?_eq_getElem hlt)
  · rw [oldSections, if_pos (by simpa using h)]
    exact addOwn_mem (formatPrefixed_ne_nil _ _ _)

/-- So has an added one. -/
theorem sections_added {ni : ℕ} (h : ni ∈ (alignSiblings order old new).newOnly) :
    ∃ text ≠ [], Section.own text ∈ sections (alignSiblings order old new) old new := by
  obtain ⟨hlt, hunpaired⟩ := mem_newOnly.mp h
  refine ⟨_, formatPrefixed_ne_nil (bytes "+") 1 new[ni], List.mem_append_right _ ?_⟩
  refine List.mem_flatMap.mpr ⟨(new[ni], ni), ?_, ?_⟩
  · exact List.mem_zipIdx_iff_getElem?.mpr (List.getElem?_eq_getElem hlt)
  · have hfind : (alignSiblings order old new).pairs.find? (·.2 == ni) = none := by
      refine List.find?_eq_none.mpr fun p hp heq => hunpaired ?_
      exact beq_iff_eq.mp heq ▸ List.mem_map_of_mem hp
    rw [newSections, hfind]
    exact addOwn_mem (formatPrefixed_ne_nil _ _ _)

variable (hperm : (order (identities old)).Perm (identities old))
include hperm

/-- The pair of a new index. -/
theorem find_newIdx {p : ℕ × ℕ} (hp : p ∈ (alignSiblings order old new).pairs) :
    (alignSiblings order old new).pairs.find? (·.2 == p.2) = some p := by
  cases hf : (alignSiblings order old new).pairs.find? (·.2 == p.2) with
  | none => exact absurd (beq_self_eq_true p.2) (List.find?_eq_none.mp hf p hp)
  | some q =>
    have hq : q.2 = p.2 := by simpa using List.find?_some hf
    rw [List.inj_on_of_nodup_map (pairs_snd_nodup hperm) (List.mem_of_find?_eq_some hf) hp hq]

/-- And so has a modified one that cannot be descended into. -/
theorem sections_modified {e : DiffEntry}
    (he : e ∈ changedEntries (alignSiblings order old new) old new) (hmoved : e.moved = false)
    (hrec : e.recursable = false) :
    ∃ text ≠ [], Section.own text ∈ sections (alignSiblings order old new) old new := by
  obtain ⟨ni, hp, ho, hn, hmove, hchanged⟩ := mem_changedEntries.mp he
  have hne : nodesEqual e.oldNode e.newNode = false :=
    hchanged.resolve_left (by rw [hmoved]; exact Bool.false_ne_true)
  obtain ⟨text, htext, hown⟩ : ∃ text ≠ [], Section.own text ∈ pairedSections e.oldIdx e.oldNode e.newNode :=
    pairedSections_own hne hrec
  refine ⟨text, htext, List.mem_append_right _ ?_⟩
  refine List.mem_flatMap.mpr ⟨(e.newNode, ni), List.mem_zipIdx_iff_getElem?.mpr hn, ?_⟩
  have hstays : ni ∉ (alignSiblings order old new).movedNew := by
    intro hin
    obtain ⟨q, hmem, hlis, hqni⟩ := mem_movedNew.mp hin
    have hqp := List.inj_on_of_nodup_map (pairs_snd_nodup hperm) hmem hp hqni
    have : e.moved = true := hmove.mpr (mem_movedOld.mpr ⟨q, hmem, hlis, by rw [hqp]⟩)
    rw [hmoved] at this
    exact Bool.false_ne_true this
  rw [newSections, find_newIdx hperm hp]
  dsimp only
  rw [if_neg (by simpa using hstays), ho]
  exact hown

/-- **A level with a change prints something**, if every block it descends into does. -/
theorem diffLevel_ne_nil {recurse : ℕ → Node → Node → Bytes} {editPath : List Bytes}
    (hchanged : ¬SameSiblings old new)
    (hrec : ∀ e ∈ changedEntries (alignSiblings order old new) old new, e.moved = false →
      e.recursable = true → recurse e.oldIdx e.oldNode e.newNode ≠ []) :
    diffLevel recurse (alignSiblings order old new) old new editPath ≠ [] := by
  rw [← unchanged_iff hperm] at hchanged
  rw [diffLevel]
  dsimp only
  rw [if_neg (by simpa [List.isEmpty_iff, and_assoc] using hchanged)]
  by_cases hdescends : descends (alignSiblings order old new)
      (changedEntries (alignSiblings order old new) old new) = true
  · rw [if_pos hdescends]
    obtain ⟨hold, hnew, hmoves, hall⟩ := descends_iff.mp hdescends
    cases hentries : changedEntries (alignSiblings order old new) old new with
    | nil => exact absurd ⟨hentries, hold, hnew⟩ hchanged
    | cons e rest =>
      have he : e ∈ changedEntries (alignSiblings order old new) old new :=
        hentries ▸ List.mem_cons_self
      rw [List.flatMap_cons]
      exact List.append_ne_nil_of_left_ne_nil (hrec e he (hmoves e he) (hall e he)) _
  · -- some sibling is removed, added, moved, or modified without being descended into
    rw [if_neg hdescends]
    have hown : ∃ text ≠ [], Section.own text ∈ sections (alignSiblings order old new) old new := by
      by_cases hold : (alignSiblings order old new).oldOnly = []
      · by_cases hnew : (alignSiblings order old new).newOnly = []
        · by_cases hmoves : ∀ e ∈ changedEntries (alignSiblings order old new) old new,
            e.moved = false
          · have hnot : ¬∀ e ∈ changedEntries (alignSiblings order old new) old new,
                e.recursable = true :=
              fun hall => hdescends (descends_iff.mpr ⟨hold, hnew, hmoves, hall⟩)
            push Not at hnot
            obtain ⟨e, he, hnot⟩ := hnot
            exact sections_modified hperm he (hmoves e he) (by simpa using hnot)
          · push Not at hmoves
            obtain ⟨e, he, hmoved⟩ := hmoves
            obtain ⟨-, -, ho, -, hmove, -⟩ := mem_changedEntries.mp he
            refine sections_removed (List.getElem?_eq_some_iff.mp ho).1 (.inr (hmove.mp ?_))
            simpa using hmoved
        · obtain ⟨ni, hni⟩ := List.exists_mem_of_ne_nil _ hnew
          exact sections_added hni
      · obtain ⟨oi, hoi⟩ := List.exists_mem_of_ne_nil _ hold
        exact sections_removed (mem_oldOnly.mp hoi).1 (.inl hoi)
    obtain ⟨text, htext, hmem⟩ := hown
    exact writeSections_ne_nil htext hmem

end

/-! ## The whole diff -/

section

variable {maps : MapOrder} {old new : List Node} {call : List ℕ} {editPath : List Bytes}

theorem diffsBelow_eq_map (maps : MapOrder) (nodes : List Node) :
    diffsBelow maps nodes = nodes.map (Node.diffBelow maps) := by
  induction nodes with
  | nil => rfl
  | cons n rest ih => rw [diffsBelow, ih, List.map_cons]

/-- The recursive call for a pair is the diff of its children. -/
theorem recurseInto_eq {oi : ℕ} {o : Node} (ho : old[oi]? = some o) (n : Node) :
    recurseInto (diffsBelow maps old) call editPath oi o n
      = diffNodes maps o.children n.children (call ++ [oi]) (editPath ++ o.keys) := by
  rw [recurseInto, diffsBelow_eq_map, List.getElem?_map, ho]
  obtain ⟨head, children⟩ := o
  rfl

theorem diffNodes_nil_of_same (h : SameSiblings old new) :
    diffNodes maps old new call editPath = [] := by
  obtain ⟨hentries, hold, hnew⟩ := (unchanged_iff (maps.perm call (identities old))).mpr h
  rw [diffNodes, diffLevel]
  dsimp only
  rw [hentries, hold, hnew]
  rfl

theorem sameSiblings_of_contents (h : contents old = contents new) : SameSiblings old new := by
  rw [contents_eq_map, contents_eq_map] at h
  refine ⟨by simpa using congrArg List.length h, fun i o n ho hn => nodesEqual_of_content o n ?_⟩
  have hget := congrArg (·[i]?) h
  simpa [ho, hn] using hget

theorem contents_of_sameSiblings (hno : NotRegrouped old new) (h : SameSiblings old new) :
    contents old = contents new := by
  rw [contents_eq_map, contents_eq_map]
  refine List.ext_getElem? fun i => ?_
  rw [List.getElem?_map, List.getElem?_map]
  by_cases hi : i < old.length
  · have ho := List.getElem?_eq_getElem hi
    have hn := List.getElem?_eq_getElem (h.1 ▸ hi)
    rw [ho, hn, Option.map_some, Option.map_some]
    refine congrArg some (content_of_nodesEqual _ _ ?_ (h.2 i _ _ ho hn))
    exact hno.pair (List.getElem_mem hi) (List.getElem_mem _)
  · rw [List.getElem?_eq_none (by omega), List.getElem?_eq_none (by have := h.1; omega)]

/-- Two blocks of one identity that agree in their heads and below are equal. -/
theorem nodesEqual_of_recursable {o n : Node} (hkeys : o.keys = n.keys)
    (hid : keyProvenanceID o.toNodeHead = keyProvenanceID n.toNodeHead)
    (hrec : (sameBlock o.toNodeHead n.toNodeHead && o.annotationText == n.annotationText) = true)
    (hbelow : contents o.children = contents n.children) : nodesEqual o n = true := by
  simp only [sameBlock, Bool.and_eq_true, Bool.not_eq_true', beq_iff_eq] at hrec
  obtain ⟨⟨⟨ho, hn⟩, hinactive⟩, hannotated⟩ := hrec
  have hhead : headsEqual o.toNodeHead n.toNodeHead = true :=
    headsEqual_iff.mpr ⟨hid, ho.trans hn.symm, hinactive, hannotated⟩
  refine nodesEqual_of_content o n (node_ext ?_ ?_)
  · rw [content_head, content_head, contentHead_of_headsEqual hkeys hhead]
  · rw [content_children_eq o ho, content_children_eq n hn, hbelow]

/-- **An empty diff means equal contents**, unless keys are regrouped. -/
theorem contents_of_diffNodes_nil (maps : MapOrder) (old : List Node) :
    ∀ new call editPath, NotRegrouped old new → diffNodes maps old new call editPath = [] →
      contents old = contents new := by
  refine level_induction (motive := fun old => ∀ new call editPath, NotRegrouped old new →
    diffNodes maps old new call editPath = [] → contents old = contents new) ?_ old
  intro old ih new call editPath hno hnil
  refine contents_of_sameSiblings hno ?_
  by_contra hchanged
  refine diffLevel_ne_nil (maps.perm call (identities old)) hchanged ?_ hnil
  intro e he hmoved hrec hbelow
  obtain ⟨ni, hp, ho, hn, -, hdiffers⟩ := mem_changedEntries.mp he
  have hold := List.mem_of_getElem? ho
  have hnew := List.mem_of_getElem? hn
  -- an entry that prints nothing below has the same content below
  rw [recurseInto_eq ho] at hbelow
  have hcontents := ih e.oldNode hold _ _ _ (hno.children hold hnew) hbelow
  obtain ⟨o, n, ho', hn', hid⟩ := pairs_mem hp
  obtain rfl := Option.some.inj (ho'.symm.trans ho)
  obtain rfl := Option.some.inj (hn'.symm.trans hn)
  have hequal := nodesEqual_of_recursable (hno.keys hold hnew hid) hid hrec hcontents
  rw [hequal, hmoved] at hdiffers
  rcases hdiffers with h | h <;> cases h

end

/-- **`FormatCompare` and equality.** Equal contents show no difference. Unless keys are
regrouped, other contents show one. -/
theorem formatCompare_nil (maps : MapOrder) (old new : List Node) :
    (contents old = contents new → formatCompare maps old new = [])
      ∧ (NotRegrouped old new → formatCompare maps old new = [] → contents old = contents new) :=
  ⟨fun h => diffNodes_nil_of_same (sameSiblings_of_contents h),
    contents_of_diffNodes_nil maps old new [] []⟩

/-- The map ranged over in the order its keys were first seen. -/
def firstSeen : MapOrder := ⟨fun _ ids => ids, fun _ ids => List.Perm.refl ids⟩

theorem formatCompare_nil_reordered :
    let old := (parse (bytes "a \x7b then b; from c; \x7d")).1
    let new := (parse (bytes "a \x7b from c; then b; \x7d")).1
    NotRegrouped old new ∧ formatCompare firstSeen old new = [] ∧ contents old = contents new :=
  ⟨by decide +kernel, (formatCompare_nil _ _ _).1 (by decide +kernel),
    (formatCompare_nil firstSeen _ _).2 (by decide +kernel) (by decide +kernel)⟩

/-- The diff shows a key that only lost its quotes: the keys, flags and annotations of
the two trees are the same. -/
theorem formatCompare_quoted :
    nodesCore (canonicalForest (parse (bytes "x \"a\";")).1) = nodesCore (canonicalForest (parse (bytes "x a;")).1)
      ∧ formatCompare firstSeen (parse (bytes "x \"a\";")).1 (parse (bytes "x a;")).1
          = bytes "[edit]\n-    x a;\n+    x a;\n" := by
  constructor <;> decide +kernel

end Xpf.ConfigDiff
