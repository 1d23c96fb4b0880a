/-
What the fragment-overlap tracker does with whole datagrams.

A tiling of `[0, N)` is a list of fragments, in the order they come in: none empty, no two
of them meeting, together all of the datagram, the last one marked. Of at most 32
fragments every part of a tiling fits the 16 ranges of an entry: the ranges have all their
ends different, two of them each, and every end is one of at most 33 places.
-/
import Xpf.FragmentHistory
import Mathlib.Data.List.Pairwise

set_option autoImplicit false

namespace Xpf.FragmentOverlap

open Ranges Runs OverlapTracker

/-! ## Tilings -/

/-- Fragments that make up a datagram of `n` bytes. -/
structure Tiling (n : ℕ) (fs : List Fragment) : Prop where
  proper : ∀ f ∈ fs, f.start < f.stop
  disjoint : fs.Pairwise fun f g => f.stop ≤ g.start ∨ g.stop ≤ f.start
  whole : ∀ x, (∃ f ∈ fs, f.start ≤ x ∧ x < f.stop) ↔ x < n
  marked : ∀ f ∈ fs, f.last = true ↔ f.stop = n

section Tiling

variable {n : ℕ} {fs : List Fragment} {f g : Fragment}

theorem Tiling.stop_le (h : Tiling n fs) (hf : f ∈ fs) : f.stop ≤ n := by
  have hproper := h.proper f hf
  have := (h.whole (f.stop - 1)).1 ⟨f, hf, by omega, by omega⟩
  omega

theorem Tiling.apart (h : Tiling n fs) (hf : f ∈ fs) (hg : g ∈ fs) (hne : f ≠ g) :
    f.stop ≤ g.start ∨ g.stop ≤ f.start :=
  have : Std.Symm fun f g : Fragment => f.stop ≤ g.start ∨ g.stop ≤ f.start := ⟨fun _ _ => Or.symm⟩
  h.disjoint.forall hf hg hne

/-- A fragment ends where another starts, or at the end of the datagram. -/
theorem Tiling.stop_mem (h : Tiling n fs) (hf : f ∈ fs) : f.stop ∈ insert n (fs.map Fragment.start).toFinset := by
  have hproper := h.proper f hf
  have hle := h.stop_le hf
  rw [Finset.mem_insert, List.mem_toFinset, List.mem_map]
  by_cases hend : f.stop = n
  · exact .inl hend
  · obtain ⟨g, hg, hlo, hhi⟩ := (h.whole f.stop).2 (by omega)
    refine .inr ⟨g, hg, ?_⟩
    have hne : f ≠ g := by
      rintro rfl
      omega
    have := h.apart hf hg hne
    omega

theorem Tiling.start_mem (n : ℕ) (hf : f ∈ fs) : f.start ∈ insert n (fs.map Fragment.start).toFinset :=
  Finset.mem_insert_of_mem (List.mem_toFinset.2 (List.mem_map_of_mem hf))

theorem Tiling.card_le (n : ℕ) (fs : List Fragment) :
    (insert n (fs.map Fragment.start).toFinset).card ≤ fs.length + 1 := by
  have hinsert := Finset.card_insert_le n (fs.map Fragment.start).toFinset
  have hlength := List.toFinset_card_le (fs.map Fragment.start)
  rw [List.length_map] at hlength
  omega

end Tiling

section Take

variable {w : World} {e : OverlapEntry} {n : ℕ} {fs : List Fragment} {f : Fragment}

/-- The ranges of an entry and one fragment more of a tiling fit the slots. -/
theorem merged_of_tiling (h : EntryOk w e) (htiling : Tiling n fs) (hfew : fs.length ≤ 32)
    (hsub : (w.recordedOf (tokenOf e) ++ [f]).Sublist fs) :
    mergeRanges e.ranges (f.start, f.stop) = some (normalized (e.ranges ++ [(f.start, f.stop)])) := by
  have hf : f ∈ fs := hsub.subset (List.mem_append_right _ List.mem_cons_self)
  have hold : ∀ g ∈ w.recordedOf (tokenOf e), g ∈ fs := fun g hg => hsub.subset (List.mem_append_left _ hg)
  have hnonempty : ∀ r ∈ e.ranges ++ [(f.start, f.stop)], r.1 < r.2 := by
    intro r hr
    rcases List.mem_append.1 hr with hr | hr
    · exact h.normal.nonempty r hr
    · rw [List.mem_singleton.1 hr]
      exact htiling.proper f hf
  have hpoints : ∀ r ∈ normalized (e.ranges ++ [(f.start, f.stop)]),
      r.1 ∈ insert n (fs.map Fragment.start).toFinset ∧ r.2 ∈ insert n (fs.map Fragment.start).toFinset := by
    intro r hr
    obtain ⟨⟨a, ha, hstart⟩, b, hb, hstop⟩ := normalized_ends r hr
    refine ⟨?_, ?_⟩
    · rw [hstart]
      rcases List.mem_append.1 ha with ha | ha
      · obtain ⟨g, hg, heq⟩ := (h.ends a ha).1
        rw [heq]
        exact Tiling.start_mem n (hold g hg)
      · rw [List.mem_singleton.1 ha]
        exact Tiling.start_mem n hf
    · rw [hstop]
      rcases List.mem_append.1 hb with hb | hb
      · obtain ⟨g, hg, heq⟩ := (h.ends b hb).2
        rw [heq]
        exact htiling.stop_mem (hold g hg)
      · rw [List.mem_singleton.1 hb]
        exact htiling.stop_mem hf
  have hcount := (normalized_normal hnonempty).two_mul_length_le hpoints
  have hcard := Tiling.card_le n fs
  have hslots : overlapMaxRanges = 16 := rfl
  rw [mergeRanges_eq, if_pos (by omega)]

/-- An entry that has seen a part of a tiling takes the next fragment of it. -/
theorem takes_of_tiling (h : EntryOk w e) (htiling : Tiling n fs) (hfew : fs.length ≤ 32)
    (hsub : (w.recordedOf (tokenOf e) ++ [f]).Sublist fs) :
    Takes e f (normalized (e.ranges ++ [(f.start, f.stop)])) := by
  have hf : f ∈ fs := hsub.subset (List.mem_append_right _ List.mem_cons_self)
  have hold : ∀ g ∈ w.recordedOf (tokenOf e), g ∈ fs := fun g hg => hsub.subset (List.mem_append_left _ hg)
  have hproper := htiling.proper f hf
  have hle := htiling.stop_le hf
  have hmarked := htiling.marked f hf
  refine ⟨?_, ?_, merged_of_tiling h htiling hfew hsub⟩
  · unfold terminalConflict
    cases hend : e.terminalEnd with
    | some m =>
      -- the end the entry knows is the end of the tiling
      obtain ⟨g, hg, hlast, rfl⟩ := (h.terminal m).1 hend
      have hgn := (htiling.marked g (hold g hg)).1 hlast
      cases hl : f.last with
      | true =>
        have := hmarked.1 hl
        simp only [Bool.true_and, Bool.not_true, Bool.false_and, Bool.or_false, Bool.or_eq_false_iff,
          decide_eq_false_iff_not]
        omega
      | false =>
        have : f.stop ≠ n := fun heq => by rw [hmarked.2 heq] at hl; exact absurd hl (by decide)
        simp only [Bool.false_and, Bool.not_false, Bool.true_and, Bool.or_false, Bool.or_eq_false_iff,
          decide_eq_false_iff_not]
        omega
    | none =>
      cases hl : f.last with
      | true =>
        have := hmarked.1 hl
        simp only [Bool.true_and, List.any_eq_false, decide_eq_true_eq]
        intro r hr
        obtain ⟨g, hg, heq⟩ := (h.ends r hr).2
        have := htiling.stop_le (hold g hg)
        omega
      | false => rfl
  · unfold overlaps
    simp only [List.any_eq_false, decide_eq_true_eq]
    intro r hr hmeet
    -- a byte of the fragment and of a range is one of an earlier fragment
    have hcov := (h.covers (max f.start r.1)).1 ⟨r, hr, by omega, by omega⟩
    obtain ⟨g, hg, hlo, hhi⟩ := covers_range.1 hcov
    have := (List.pairwise_append.1 (htiling.disjoint.sublist hsub)).2.2 g hg f List.mem_cons_self
    omega

/-- An entry that has seen all of a tiling is complete. -/
theorem complete_of_tiling (h : EntryOk w e) (htiling : Tiling n (w.recordedOf (tokenOf e))) :
    e.terminalEnd = some n ∧ e.ranges = [(0, n)] := by
  have hpos : 0 < n := by
    obtain ⟨f, hf⟩ := List.exists_mem_of_ne_nil _ h.some_recorded
    have := htiling.proper f hf
    have := htiling.stop_le hf
    omega
  have hcovers : ∀ x, Covers e.ranges x ↔ x < n := by
    intro x
    rw [h.covers, World.Covered, covers_range]
    exact htiling.whole x
  refine ⟨?_, h.normal.eq_singleton hpos hcovers⟩
  obtain ⟨f, hf, -, hhi⟩ := (htiling.whole (n - 1)).2 (by omega)
  have hstop : f.stop = n := by
    have := htiling.stop_le hf
    omega
  exact (h.terminal n).2 ⟨f, hf, (htiling.marked f hf).2 hstop, hstop⟩

end Take

/-! ## Delivery -/

/-- The fragment of a datagram that an operation delivers. -/
def delivered (key : OverlapKey) : Op → Option Fragment
  | .record k start stop isLast _ =>
    if overlapSameDatagram k key then some ⟨start.toNat, stop.toNat, isLast⟩ else none
  | _ => none

/-- The fragments of a datagram that a history delivers, in order. -/
def deliveries (key : OverlapKey) (ops : List Op) : List Fragment := ops.filterMap (delivered key)

/-- A new datagram reaches none of the quotas of a shard. -/
structure Roomy (shard : List OverlapEntry) (key : OverlapKey) : Prop where
  sender : senderEntries shard key < overlapCapPerSenderPerShard
  zone : zoneEntries shard key < overlapCapPerZonePerShard
  capacity : shard.length < overlapCapPerShard

/-- The entry of the datagram, if there is one, lives at the time. -/
def Alive (w : World) (key : OverlapKey) (nowNs : ℕ) : Prop :=
  ∀ e ∈ w.tracker.shardOf key, overlapSameDatagram e.key key = true → overlapEntryLive e nowNs = true

/-- The operation falls in the lifetime of the datagram's entry, starts no entry beside it
that reaches a quota, and fails no reservation of it. -/
def Calm (key : OverlapKey) (w : World) : Op → Prop
  | .check k _ _ _ now => w.tracker.shardIndex k = w.tracker.shardIndex key → Alive w key now.toNat
  | .record k _ _ _ now => w.tracker.shardIndex k = w.tracker.shardIndex key →
    Alive w key now.toNat
      ∧ (find (swept w.tracker k now.toNat) k = none → Roomy (swept w.tracker k now.toNat) k)
  | .commit _ => True
  | .fail n => ∀ token, w.held[n]? = some token →
    ∀ e ∈ w.tracker.shardOf key, overlapSameDatagram e.key key = true → token ≠ tokenOf e

theorem makeRoom_of_roomy {shard : List OverlapEntry} {key : OverlapKey} (h : Roomy shard key) :
    makeRoom shard key = .ok shard := by
  have hsender : senderRoom shard key = .ok (shard, zoneEntries shard key) := if_pos h.sender
  have hzone : zoneRoom shard (zoneEntries shard key) key = .ok shard := if_pos h.zone
  have hshard : shardRoom shard key = .ok shard := if_pos h.capacity
  unfold makeRoom
  rw [hsender]
  dsimp only
  rw [hzone]
  exact hshard

/-- A datagram is on its way: its entry has all that was delivered, none of it failed, and
once it is whole and settled the commit has said so. -/
structure Underway (w : World) (key : OverlapKey) (fs : List Fragment) (e : OverlapEntry) : Prop where
  mem : e ∈ w.tracker.shardOf key
  same : overlapSameDatagram e.key key = true
  recorded : w.recordedOf (tokenOf e) = fs
  spared : tokenOf e ∉ w.failed
  reported : (∃ n, e.terminalEnd = some n ∧ e.ranges = [(0, n)]) → tokenOf e ∉ w.held → tokenOf e ∈ w.completed

theorem mem_shardOf_putShard {t : OverlapTracker} {k key : OverlapKey} {e : OverlapEntry}
    {shard : List OverlapEntry} (he : e ∈ t.shardOf key) (hshard : t.shardIndex k = t.shardIndex key → e ∈ shard) :
    e ∈ (t.putShard k shard).shardOf key := by
  change e ∈ (t.putShard k shard).shards (t.shardIndex key)
  rw [shards_putShard]
  split_ifs with hi
  · exact hshard hi.symm
  · exact he

section Underway

variable {w w' : World} {key k : OverlapKey} {fs : List Fragment} {e : OverlapEntry}

/-- An entry that is left alone stays on its way. -/
theorem Underway.keep (h : Underway w key fs e) (hmem : e ∈ w'.tracker.shardOf key)
    (hsame : SameRecord w w' (tokenOf e)) (hstill : ∀ t ∈ w.completed, t ∈ w'.completed) :
    Underway w' key fs e := by
  refine ⟨hmem, h.same, hsame.recorded.trans h.recorded, ?_, ?_⟩
  · rw [hsame.failed]
    exact h.spared
  · intro hcomplete hopen
    refine hstill _ (h.reported hcomplete ?_)
    rw [← List.count_eq_zero, ← hsame.held]
    exact List.count_eq_zero.2 hopen

theorem Underway.mem_swept (h : Underway w key fs e) {nowNs : ℕ}
    (hi : w.tracker.shardIndex k = w.tracker.shardIndex key) (halive : Alive w key nowNs) :
    e ∈ swept w.tracker k nowNs := by
  refine List.mem_filter.2 ⟨?_, halive e h.mem h.same⟩
  change e ∈ w.tracker.shards (w.tracker.shardIndex k)
  rw [hi]
  exact h.mem

/-- Another datagram's fragment leaves the entry alone. -/
theorem Underway.record_other (h : Underway w key fs e) (hother : overlapSameDatagram k key = false)
    {f : Fragment} {nowNs : ℕ} (hcalm : w.tracker.shardIndex k = w.tracker.shardIndex key →
      Alive w key nowNs ∧ (find (swept w.tracker k nowNs) k = none → Roomy (swept w.tracker k nowNs) k)) :
    Underway (w.record k f nowNs) key fs e := by
  have hend := world_end w k f nowNs
  generalize w.record k f nowNs = w' at hend
  have hdiff : overlapSameDatagram e.key k = false := by
    by_contra hsame
    have := same_trans (same_symm (Bool.eq_true_of_not_eq_false hsame)) h.same
    rw [hother] at this
    exact absurd this Bool.false_ne_true
  have hswept : w.tracker.shardIndex k = w.tracker.shardIndex key → e ∈ swept w.tracker k nowNs :=
    fun hi => h.mem_swept hi (hcalm hi).1
  cases hend with
  | kept _ => exact h
  | rejected _ _ _ => exact h.keep (mem_shardOf_putShard h.mem hswept) (SameRecord.tracker ..) fun t ht => ht
  | full rest hfind hroom =>
    refine h.keep (mem_shardOf_putShard h.mem fun hi => ?_) (SameRecord.tracker ..) fun t ht => ht
    rw [makeRoom_of_roomy ((hcalm hi).2 hfind)] at hroom
    exact absurd hroom (by simp)
  | extended e₂ ranges hproper hfind htakes =>
    have hne : tokenOf e ≠ tokenOf e₂ := by
      intro heq
      have hkey : e.key = e₂.key := congrArg OverlapAdmissionToken.key heq
      rw [hkey, (mem_of_find hfind).2] at hdiff
      exact absurd hdiff (by decide)
    refine h.keep (mem_shardOf_putShard h.mem fun hi => ?_) (sameRecord_noted hne) fun t ht => ht
    exact List.mem_append_left _ ((List.mem_eraseP_of_neg (by simp [hdiff])).2 (hswept hi))
  | created room hproper hfind hroom =>
    have hne : tokenOf e ≠ ⟨k, w.tracker.nextRevision⟩ := by
      intro heq
      have hkey : e.key = k := congrArg OverlapAdmissionToken.key heq
      rw [hkey, same_refl] at hdiff
      exact absurd hdiff (by decide)
    refine h.keep (mem_shardOf_putShard h.mem fun hi => ?_) (sameRecord_noted hne) fun t ht => ht
    rw [makeRoom_of_roomy ((hcalm hi).2 hfind)] at hroom
    cases hroom
    exact List.mem_append_left _ (hswept hi)

/-- The next fragment of a tiling goes to the entry. -/
theorem Underway.record_next (h : Underway w key fs e) (hinv : Inv w) {n : ℕ} {all : List Fragment} {f : Fragment}
    (hsame : overlapSameDatagram k key = true) {nowNs : ℕ} (halive : Alive w key nowNs) (htiling : Tiling n all)
    (hfew : all.length ≤ 32) (hsub : (fs ++ [f]).Sublist all) :
    ∃ e', tokenOf e' = tokenOf e ∧ Underway (w.record k f nowNs) key (fs ++ [f]) e' := by
  have hend := world_end w k f nowNs
  generalize w.record k f nowNs = w' at hend
  have hi := shardIndex_congr w.tracker hsame
  have hfind : find (swept w.tracker k nowNs) k = some e :=
    find_eq ((hinv.unique _).sublist (swept_sublist ..)) (h.mem_swept hi halive) (same_trans h.same (same_symm hsame))
  rw [← h.recorded] at hsub
  have htakes := takes_of_tiling (hinv.entries _ e h.mem) htiling hfew hsub
  cases hend with
  | kept hempty =>
    have := htiling.proper f (hsub.subset (List.mem_append_right _ List.mem_cons_self))
    omega
  | rejected e₂ hfind₂ hwhy =>
    obtain rfl := Option.some_inj.1 (hfind.symm.trans hfind₂)
    exact absurd htakes (hwhy _)
  | full rest hnone hroom => exact absurd (hfind.symm.trans hnone) (by simp)
  | created room hproper hnone hroom => exact absurd (hfind.symm.trans hnone) (by simp)
  | extended e₂ ranges hproper hfind₂ htakes₂ =>
    obtain rfl := Option.some_inj.1 (hfind.symm.trans hfind₂)
    refine ⟨extend e ranges f.stop f.last w.tracker.nextRevision nowNs, rfl, ?_, h.same, ?_, h.spared, ?_⟩
    · change _ ∈ (w.tracker.putShard k _).shards (w.tracker.shardIndex key)
      rw [shards_putShard, if_pos hi.symm]
      exact List.mem_append_right _ List.mem_cons_self
    · rw [← h.recorded]
      exact recordedOf_noted_self
    · exact fun _ hopen => absurd (List.mem_append_right _ List.mem_cons_self) hopen

theorem mem_updateFirst_of_not_same {shard : List OverlapEntry} {e' : OverlapEntry} (he : e ∈ shard)
    (hdiff : overlapSameDatagram e.key k = false) : e ∈ updateFirst k (fun _ => e') shard := by
  induction shard with
  | nil => exact absurd he List.not_mem_nil
  | cons first rest ih =>
    unfold updateFirst
    by_cases hsame : overlapSameDatagram first.key k = true
    · rw [if_pos hsame]
      rcases List.mem_cons.1 he with rfl | he
      · rw [hdiff] at hsame
        exact absurd hsame Bool.false_ne_true
      · exact List.mem_cons_of_mem _ he
    · rw [if_neg hsame]
      rcases List.mem_cons.1 he with rfl | he
      · exact List.mem_cons_self
      · exact List.mem_cons_of_mem _ (ih he)

theorem mem_updateFirst_self {shard : List OverlapEntry} {e' : OverlapEntry} (h : find shard k = some e) :
    e' ∈ updateFirst k (fun _ => e') shard := by
  induction shard with
  | nil => exact absurd h (by simp [find])
  | cons first rest ih =>
    unfold updateFirst
    by_cases hsame : overlapSameDatagram first.key k = true
    · rw [if_pos hsame]
      exact List.mem_cons_self
    · unfold find at h
      rw [List.find?_cons_of_neg (by simpa using hsame)] at h
      rw [if_neg hsame]
      exact List.mem_cons_of_mem _ (ih h)

/-- Settling another reservation leaves the entry alone. -/
theorem Underway.settle_other (h : Underway w key fs e) (hinv : Inv w) {n : ℕ} {token : OverlapAdmissionToken}
    (hsettles : Settles w w' n token) (hne : token ≠ tokenOf e) : Underway w' key fs e := by
  refine h.keep ?_ (hsettles.sameRecord hne.symm) hsettles.stillCompleted
  rcases hsettles.tracker with ⟨-, htracker⟩ | ⟨e₂, e₂', hsettled, -, -, htracker⟩
  · rw [htracker]
    exact h.mem
  · obtain ⟨hmem, rfl⟩ := hinv.tokenOf_settled (List.mem_of_getElem? hsettles.taken) hsettled
    rw [htracker]
    refine mem_shardOf_putShard h.mem fun hi => mem_updateFirst_of_not_same ?_ ?_
    · change e ∈ w.tracker.shards (w.tracker.shardIndex e₂.key)
      have hi' : w.tracker.shardIndex e₂.key = w.tracker.shardIndex key := hi
      rw [hi']
      exact h.mem
    · -- a datagram has one entry, and the token is not this one's
      by_contra hsame
      obtain rfl := hinv.eq_of_token h.mem hmem (Bool.eq_true_of_not_eq_false hsame)
      exact hne rfl

/-- Committing a reservation of the entry: the last one of a whole datagram is reported. -/
theorem Underway.commit_own (h : Underway w key fs e) (hinv : Inv w) {n : ℕ}
    (htaken : w.held[n]? = some (tokenOf e)) :
    ∃ e', tokenOf e' = tokenOf e ∧ Underway (w.commit n) key fs e' := by
  have hok := hinv.entries _ e h.mem
  have hsettled := hinv.settled_of_mem (List.mem_of_getElem? htaken) h.mem rfl
  obtain ⟨hfind, -, -⟩ := settled_eq_some.1 hsettled
  have hreport := commitAdmission_of_settled hsettled hok.normal
  have hsettles := settles_commit hinv htaken
  have hcompleted : (w.commit n).completed
      = if (w.tracker.commitAdmission (tokenOf e)).1 then w.completed ++ [tokenOf e] else w.completed := by
    simp only [World.commit, htaken]
  have htracker : (w.commit n).tracker = w.tracker.putShard e.key
      (updateFirst e.key (fun _ => { e with pending := e.pending - 1 }) (w.tracker.shardOf e.key)) := by
    simp only [World.commit, htaken, commitAdmission, hsettled]
    rfl
  have hfailed : (w.commit n).failed = w.failed := by
    simp only [World.commit, htaken]
  refine ⟨{ e with pending := e.pending - 1 }, rfl, ?_, h.same, ?_, ?_, ?_⟩
  · rw [htracker]
    change _ ∈ (w.tracker.putShard e.key _).shards (w.tracker.shardIndex key)
    rw [shards_putShard, if_pos (shardIndex_congr _ (same_symm h.same))]
    exact mem_updateFirst_self hfind
  · rw [← h.recorded]
    unfold World.recordedOf
    rw [hsettles.recorded]
    rfl
  · rw [hfailed]
    exact h.spared
  · intro hcomplete hopen
    change tokenOf e ∉ _ at hopen
    have hcount := count_eraseIdx htaken (tokenOf e)
    rw [if_pos rfl, ← hok.pending, ← hsettles.held, List.count_eq_zero.2 hopen] at hcount
    have hspared : e.failed = false := by
      have := h.spared
      rw [← hok.failed] at this
      exact Bool.eq_false_of_not_eq_true this
    rw [hcompleted, if_pos (hreport.2 ⟨hcount, hspared, hcomplete⟩)]
    exact List.mem_append_right _ List.mem_cons_self

/-- **One step of a delivery.** -/
theorem Underway.step (h : Underway w key fs e) (hinv : Inv w) {op : Op} (hcalm : Calm key w op) {n : ℕ}
    {all : List Fragment} (htiling : Tiling n all) (hfew : all.length ≤ 32)
    (hsub : (fs ++ (delivered key op).toList).Sublist all) :
    ∃ e', tokenOf e' = tokenOf e ∧ Underway (w.step op) key (fs ++ (delivered key op).toList) e' := by
  cases op with
  | check k start stop isLast now =>
    refine ⟨e, rfl, ?_⟩
    change Underway _ key (fs ++ []) e
    rw [List.append_nil]
    unfold World.step
    dsimp only
    rcases check_tracker w.tracker k start.toNat stop.toNat isLast now.toNat with hsame | hswept
    · rw [hsame]
      exact h
    · rw [hswept]
      refine h.keep (mem_shardOf_putShard h.mem fun hi => ?_) (SameRecord.tracker ..) fun t ht => ht
      exact h.mem_swept hi (hcalm hi)
  | record k start stop isLast now =>
    by_cases hsame : overlapSameDatagram k key = true
    · have hdelivered : delivered key (.record k start stop isLast now) = some ⟨start.toNat, stop.toNat, isLast⟩ :=
        if_pos hsame
      rw [hdelivered] at hsub ⊢
      exact h.record_next hinv hsame (hcalm (shardIndex_congr _ hsame)).1 htiling hfew hsub
    · have hdelivered : delivered key (.record k start stop isLast now) = none := if_neg hsame
      rw [hdelivered, Option.toList_none, List.append_nil]
      exact ⟨e, rfl, h.record_other (Bool.eq_false_of_not_eq_true hsame) hcalm⟩
  | commit m =>
    change ∃ e', tokenOf e' = tokenOf e ∧ Underway (w.commit m) key (fs ++ []) e'
    rw [List.append_nil]
    cases htaken : w.held[m]? with
    | none =>
      rw [commit_none htaken]
      exact ⟨e, rfl, h⟩
    | some token =>
      by_cases hown : token = tokenOf e
      · exact h.commit_own hinv (hown ▸ htaken)
      · exact ⟨e, rfl, h.settle_other hinv (settles_commit hinv htaken) hown⟩
  | fail m =>
    refine ⟨e, rfl, ?_⟩
    change Underway (w.fail m) key (fs ++ []) e
    rw [List.append_nil]
    cases htaken : w.held[m]? with
    | none => rwa [fail_none htaken]
    | some token => exact h.settle_other hinv (settles_fail hinv htaken) (hcalm token htaken e h.mem h.same)

/-- The first fragment of a datagram starts an entry. -/
theorem underway_created (hinv : Inv w) {f : Fragment} (hproper : f.start < f.stop) {nowNs : ℕ}
    (hnone : find (swept w.tracker key nowNs) key = none) (hroomy : Roomy (swept w.tracker key nowNs) key) :
    ∃ e, Underway (w.record key f nowNs) key [f] e := by
  have hend := world_end w key f nowNs
  generalize w.record key f nowNs = w' at hend
  cases hend with
  | kept hempty => omega
  | rejected e hfind _ => exact absurd (hfind.symm.trans hnone) (by simp)
  | full rest _ hroom => exact absurd ((makeRoom_of_roomy hroomy).symm.trans hroom) (by simp)
  | extended e ranges _ hfind _ => exact absurd (hfind.symm.trans hnone) (by simp)
  | created room _ _ hroom =>
    have hnew := hinv.recordedOf_next key
    refine ⟨create key f.start f.stop f.last w.tracker.nextRevision nowNs, ?_, same_refl key, ?_, ?_, ?_⟩
    · change _ ∈ (w.tracker.putShard key _).shards (w.tracker.shardIndex key)
      rw [shards_putShard, if_pos rfl]
      exact List.mem_append_right _ List.mem_cons_self
    · exact recordedOf_noted_self.trans (by rw [hnew]; rfl)
    · exact fun hfailed => hinv.failed _ hfailed hnew
    · exact fun _ hopen => absurd (List.mem_append_right _ List.mem_cons_self) hopen

theorem deliveries_snoc (before : List Op) (op : Op) :
    deliveries key (before ++ [op]) = deliveries key before ++ (delivered key op).toList := by
  unfold deliveries
  rw [List.filterMap_append]
  cases h : delivered key op <;> simp [h]

/-- **A whole delivery.** -/
theorem Underway.after (h : Underway w key fs e) (hinv : Inv w) {n : ℕ} {all : List Fragment}
    (htiling : Tiling n all) (hfew : all.length ≤ 32) (ops : List Op)
    (hcalm : EachStep World.step w (Calm key) ops) (hsub : (fs ++ deliveries key ops).Sublist all) :
    Inv (w.after ops) ∧ ∃ e', tokenOf e' = tokenOf e ∧ Underway (w.after ops) key (fs ++ deliveries key ops) e' := by
  induction ops using List.reverseRecOn with
  | nil =>
    refine ⟨hinv, e, rfl, ?_⟩
    change Underway w key (fs ++ []) e
    rwa [List.append_nil]
  | append_singleton before op ih =>
    rw [deliveries_snoc, ← List.append_assoc] at hsub ⊢
    obtain ⟨hinv', e', htoken, hway⟩ :=
      ih (hcalm.mono (List.prefix_append _ _)) ((List.sublist_append_left _ _).trans hsub)
    have hafter : w.after (before ++ [op]) = (w.after before).step op := run_snoc before op
    obtain ⟨e'', htoken', hway'⟩ := hway.step hinv' (hcalm before op (List.prefix_refl _)) htiling hfew hsub
    rw [hafter]
    exact ⟨inv_step hinv' op, e'', htoken'.trans htoken, hway'⟩

end Underway

/-- Committing the first reservation again and again leaves none. -/
theorem held_after_commits {w : World} (hinv : Inv w) (m : ℕ) :
    (w.after (List.replicate m (.commit 0))).held = w.held.drop m := by
  suffices h : Inv (w.after (List.replicate m (.commit 0)))
      ∧ (w.after (List.replicate m (.commit 0))).held = w.held.drop m from h.2
  induction m with
  | zero => exact ⟨hinv, rfl⟩
  | succ m ih =>
    obtain ⟨hinv', hheld⟩ := ih
    have hafter : w.after (List.replicate (m + 1) (.commit 0))
        = (w.after (List.replicate m (.commit 0))).commit 0 := by
      rw [List.replicate_succ']
      exact run_snoc _ _
    generalize w.after (List.replicate m (.commit 0)) = w' at hinv' hheld hafter
    rw [hafter]
    refine ⟨inv_step hinv' (.commit 0), ?_⟩
    cases htaken : w'.held[0]? with
    | none =>
      rw [commit_none htaken, hheld]
      rw [hheld, List.getElem?_drop, List.getElem?_eq_none_iff] at htaken
      rw [List.drop_eq_nil_of_le (by omega), List.drop_eq_nil_of_le (by omega)]
    | some token =>
      rw [(settles_commit hinv' htaken).held, hheld, List.eraseIdx_zero, List.tail_drop]

theorem calm_commits (key : OverlapKey) (w : World) (m : ℕ) :
    EachStep World.step w (Calm key) (List.replicate m (.commit 0)) := by
  intro before op hpre
  have hmem : op ∈ List.replicate m (Op.commit 0) :=
    hpre.subset (List.mem_append_right _ List.mem_cons_self)
  rw [List.eq_of_mem_replicate hmem]
  trivial

theorem deliveries_commits (key : OverlapKey) (m : ℕ) : deliveries key (List.replicate m (.commit 0)) = [] := by
  unfold deliveries
  induction m with
  | zero => rfl
  | succ m ih => rw [List.replicate_succ, List.filterMap_cons_none rfl, ih]

/-- A datagram delivered whole, in any order, is recorded under one token and completes:
with its reservations committed, its completion has been reported. -/
theorem delivery_completes {w : World} (hinv : Inv w) {key : OverlapKey} {start stop : UInt32} {isLast : Bool}
    {now : UInt64} {rest : List Op} {n : ℕ} (hnone : find (swept w.tracker key now.toNat) key = none)
    (hroomy : Roomy (swept w.tracker key now.toNat) key)
    (hcalm : EachStep World.step (w.step (.record key start stop isLast now)) (Calm key) rest)
    (htiling : Tiling n (⟨start.toNat, stop.toNat, isLast⟩ :: deliveries key rest))
    (hfew : (deliveries key rest).length + 1 ≤ 32) :
    ∃ token, (w.after (.record key start stop isLast now :: rest)).recordedOf token
        = ⟨start.toNat, stop.toNat, isLast⟩ :: deliveries key rest
      ∧ (token ∉ (w.after (.record key start stop isLast now :: rest)).held →
        token ∈ (w.after (.record key start stop isLast now :: rest)).completed)
      ∧ token ∈ ((w.after (.record key start stop isLast now :: rest)).after (List.replicate
        (w.after (.record key start stop isLast now :: rest)).held.length (.commit 0))).completed := by
  have hproper := htiling.proper _ List.mem_cons_self
  obtain ⟨e, hway⟩ : ∃ e, Underway (w.step (.record key start stop isLast now)) key
      [⟨start.toNat, stop.toNat, isLast⟩] e := underway_created hinv hproper hnone hroomy
  have hinv₁ := inv_step hinv (.record key start stop isLast now)
  have hafter : w.after (.record key start stop isLast now :: rest)
      = (w.step (.record key start stop isLast now)).after rest := rfl
  obtain ⟨hinv₂, e₂, htoken₂, hway₂⟩ := hway.after hinv₁ htiling hfew rest hcalm (List.Sublist.refl _)
  rw [hafter]
  generalize (w.step (.record key start stop isLast now)).after rest = w₂ at hinv₂ hway₂ ⊢
  have hwhole : ∀ {w' : World} {e' : OverlapEntry}, Inv w' →
      Underway w' key ([⟨start.toNat, stop.toNat, isLast⟩] ++ deliveries key rest) e' →
      ∃ n, e'.terminalEnd = some n ∧ e'.ranges = [(0, n)] := by
    intro w' e' hinv' hway'
    refine ⟨n, complete_of_tiling (hinv'.entries _ e' hway'.mem) ?_⟩
    rw [hway'.recorded]
    exact htiling
  have hcommits := calm_commits key w₂ w₂.held.length
  obtain ⟨hinv₃, e₃, htoken₃, hway₃⟩ := hway₂.after hinv₂ htiling hfew _ hcommits
    (by rw [deliveries_commits, List.append_nil]; exact List.Sublist.refl _)
  rw [deliveries_commits, List.append_nil] at hway₃
  refine ⟨tokenOf e₂, hway₂.recorded, hway₂.reported (hwhole hinv₂ hway₂), ?_⟩
  rw [← htoken₃]
  refine hway₃.reported (hwhole hinv₃ hway₃) ?_
  rw [held_after_commits hinv₂, List.drop_length]
  exact List.not_mem_nil

/-- **The tracker over whole histories.** After any history on a fresh tracker, the
fragments recorded under each token are disjoint; the ranges of each entry are normal, cover
what its fragments cover and nothing past the known end; a commit reports completion exactly
for a whole datagram with nothing open and nothing failed; and nothing is recorded after
that. A datagram that comes in whole, in any order, in at most 32 fragments, within the
lifetime of its entry and without a quota being reached, is recorded whole and completes. -/
theorem overlapTracker_sound (seed : UInt64) (before : List Op) :
    (∀ token, (((World.init seed).after before).recordedOf token).Pairwise
      fun f g => f.stop ≤ g.start ∨ g.stop ≤ f.start)
    ∧ (∀ e, ((World.init seed).after before).Holds e → Normal e.ranges
      ∧ (∀ x, Covers e.ranges x ↔ ((World.init seed).after before).Covered (tokenOf e) x)
      ∧ ∀ stop, e.terminalEnd = some stop → ∀ x, ((World.init seed).after before).Covered (tokenOf e) x → x < stop)
    ∧ (∀ n token, ((World.init seed).after before).held[n]? = some token →
      ((((World.init seed).after before).tracker.commitAdmission token).1 = true
        ↔ ∃ e, ((World.init seed).after before).Holds e ∧ tokenOf e = token
          ∧ (∃ stop, e.terminalEnd = some stop
            ∧ ∀ x, ((World.init seed).after before).Covered token x ↔ x < stop)
          ∧ token ∉ ((World.init seed).after before).held.eraseIdx n
          ∧ token ∉ ((World.init seed).after before).failed))
    ∧ (∀ token ∈ ((World.init seed).after before).completed, ∀ ops,
      (((World.init seed).after before).after ops).recordedOf token
        = ((World.init seed).after before).recordedOf token)
    ∧ (∀ key start stop isLast now rest n,
      find (swept ((World.init seed).after before).tracker key now.toNat) key = none →
      Roomy (swept ((World.init seed).after before).tracker key now.toNat) key →
      EachStep World.step (((World.init seed).after before).step (.record key start stop isLast now)) (Calm key) rest →
      Tiling n (⟨start.toNat, stop.toNat, isLast⟩ :: deliveries key rest) →
      (deliveries key rest).length + 1 ≤ 32 →
      ∃ token, (((World.init seed).after before).after (.record key start stop isLast now :: rest)).recordedOf token
          = ⟨start.toNat, stop.toNat, isLast⟩ :: deliveries key rest
        ∧ (token ∉ (((World.init seed).after before).after (.record key start stop isLast now :: rest)).held →
          token ∈ (((World.init seed).after before).after (.record key start stop isLast now :: rest)).completed)
        ∧ token ∈ ((((World.init seed).after before).after (.record key start stop isLast now :: rest)).after
          (List.replicate (((World.init seed).after before).after
            (.record key start stop isLast now :: rest)).held.length (.commit 0))).completed) := by
  have hinv := inv_after seed before
  refine ⟨disjoint_after seed before, ?_, ?_, ?_, ?_⟩
  · intro e he
    have hok := hinv.entries _ e he
    refine ⟨hok.normal, hok.covers, fun stop hend x hx => ?_⟩
    obtain ⟨r, hr, -, hhi⟩ := (hok.covers x).2 hx
    exact Nat.lt_of_lt_of_le hhi (hok.within stop hend r hr)
  · exact fun n token htaken => commitAdmission_iff hinv htaken
  · exact fun token hdone ops => recordedOf_completed hinv hdone ops
  · intro key start stop isLast now rest n hnone hroomy hcalm htiling hfew
    exact delivery_completes hinv hnone hroomy hcalm htiling hfew

/-- A key to try the tracker on. -/
def sampleKey : OverlapKey where
  addrFamily := 4
  src := .v4 (Vector.replicate 4 10)
  dst := .v4 (Vector.replicate 4 20)
  ident := 7
  protocol := 17
  routingDomain := 0
  ingressZone := 1
  fairnessOrigin := none

theorem sampleTiling : Tiling 16 [⟨8, 16, true⟩, ⟨0, 8, false⟩] := by
  refine ⟨by decide, by decide, ?_, by decide⟩
  intro x
  simp only [List.mem_cons, List.not_mem_nil, or_false, or_and_right, exists_or, exists_eq_left]
  omega

/-- Two fragments, the last one first, and their reservations committed. -/
theorem overlapTracker_sound_pair : ∃ token, token ∈ ((World.init 0).after [.record sampleKey 8 16 true 0,
    .record sampleKey 0 8 false 1, .commit 0, .commit 0]).completed := by
  have hcalm : EachStep World.step ((World.init 0).step (.record sampleKey 8 16 true 0)) (Calm sampleKey)
      [.record sampleKey 0 8 false 1, .commit 0, .commit 0] := by
    have halive : ∀ e ∈ ((World.init 0).step (.record sampleKey 8 16 true 0)).tracker.shardOf sampleKey,
        overlapSameDatagram e.key sampleKey = true → overlapEntryLive e 1 = true := by
      decide +kernel
    have hfound : (find (swept ((World.init 0).step (.record sampleKey 8 16 true 0)).tracker sampleKey 1)
        sampleKey).isSome = true := by
      decide +kernel
    refine .cons (fun _ => ⟨halive, fun hnone => ?_⟩) (.cons trivial (.cons trivial .nil))
    exact absurd hnone (Option.isSome_iff_ne_none.1 hfound)
  have hheld : ((World.init 0).after [.record sampleKey 8 16 true 0, .record sampleKey 0 8 false 1, .commit 0,
      .commit 0]).held = [] := by
    decide +kernel
  obtain ⟨token, -, hdone, -⟩ := (overlapTracker_sound 0 []).2.2.2.2 sampleKey 8 16 true 0
    [.record sampleKey 0 8 false 1, .commit 0, .commit 0] 16 rfl ⟨by decide, by decide, by decide⟩ hcalm
    sampleTiling (by decide)
  refine ⟨token, hdone ?_⟩
  rw [show (World.init 0).after [] = World.init 0 from rfl, hheld]
  exact List.not_mem_nil

end Xpf.FragmentOverlap
