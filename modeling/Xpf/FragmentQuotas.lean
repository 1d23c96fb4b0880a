/-
The quotas of the fragment-overlap tracker over whole histories.

A shard has a capacity, a routing domain's zone a reserve of half of it, and a sender a
quota of entries that are not completed. Each of these bounds a count of one class of
entries, so one rule carries all of them over a step (`countP_step`): a class that does not
change while an entry lives can only grow where a new datagram is admitted, and there
`makeRoom` has to leave room in it.

The capacity and the reserve hold in every history, and so does a quota for each
pre-translation origin. The quota of a sender does not: the count for a candidate that has
an origin passes over the arrival entries of the same sender (`Overbooks`).
-/
import Xpf.FragmentHistory

set_option autoImplicit false

namespace Xpf.FragmentOverlap

open Ranges Runs OverlapTracker

/-! ## What is counted -/

/-- The entries of a zone of a routing domain. -/
def zoneHeld (shard : List OverlapEntry) (domain zone : UInt32) : ℕ :=
  shard.countP fun e => e.key.routingDomain = domain && e.key.ingressZone = zone

/-- The entries of a sender that are not completed. -/
def identityEntries (shard : List OverlapEntry) (sender : Sender) : ℕ :=
  shard.countP fun e => !overlapEntryComplete e && overlapSender e.key = sender

/-- The entries stamped with an origin that are not completed. -/
def originEntries (shard : List OverlapEntry) (origin : Sender) : ℕ :=
  shard.countP fun e => !overlapEntryComplete e && e.key.fairnessOrigin = some origin

/-- A new datagram that has an origin finds fewer entries in its count than its sender has
quota, although the sender has no quota left. -/
structure Overbooks (shard : List OverlapEntry) (key : OverlapKey) : Prop where
  origin : key.fairnessOrigin.isSome = true
  unknown : (find shard key).isNone = true
  counted : senderEntries shard key < overlapCapPerSenderPerShard
  held : overlapCapPerSenderPerShard ≤ identityEntries shard (overlapSender key)

/-- The operation does not record such a datagram. -/
def KeepsQuota (w : World) : Op → Prop
  | .record key _ _ _ now => ¬ Overbooks (swept w.tracker key now.toNat) key
  | _ => True

/-! ## Taking one entry out -/

theorem oldest_fold (eligible : OverlapEntry → Bool) (pos : ℕ) : ∀ (entries : List (OverlapEntry × ℕ))
    (best : Option ℕ × ℕ), (entries.foldl (fun (best : Option ℕ × ℕ) (entry : OverlapEntry × ℕ) =>
      if eligible entry.1 && entry.1.createdNs < best.2 then (some entry.2, entry.1.createdNs) else best) best).1
        = some pos →
    best.1 = some pos ∨ ∃ e, (e, pos) ∈ entries ∧ eligible e = true := by
  intro entries
  induction entries with
  | nil => exact fun best h => .inl h
  | cons entry rest ih =>
    intro best h
    rw [List.foldl_cons] at h
    rcases ih _ h with hbest | ⟨e, he, heligible⟩
    · split_ifs at hbest with htake
      · obtain rfl := Option.some_inj.1 hbest
        rw [Bool.and_eq_true] at htake
        exact .inr ⟨entry.1, List.mem_cons_self, htake.1⟩
      · exact .inl hbest
    · exact .inr ⟨e, List.mem_cons_of_mem _ he, heligible⟩

/-- The oldest entry of a class is one of it. -/
theorem oldest_spec {eligible : OverlapEntry → Bool} {shard : List OverlapEntry} {pos : ℕ}
    (h : oldest eligible shard = some pos) : ∃ e, shard[pos]? = some e ∧ eligible e = true := by
  rcases oldest_fold eligible pos shard.zipIdx _ h with hnone | ⟨e, he, heligible⟩
  · exact absurd hnone (by simp)
  · exact ⟨e, List.mem_zipIdx_iff_getElem?.1 he, heligible⟩

section

variable {shard : List OverlapEntry} {p : OverlapEntry → Bool} {e e' : OverlapEntry} {key : OverlapKey}

theorem countP_eraseIdx {pos : ℕ} (h : shard[pos]? = some e) (p : OverlapEntry → Bool) :
    shard.countP p = (shard.eraseIdx pos).countP p + if p e then 1 else 0 := by
  obtain ⟨hlt, hget⟩ := List.getElem?_eq_some_iff.1 h
  have hperm := (List.getElem_cons_eraseIdx_perm hlt).countP_eq p
  rw [hget, List.countP_cons] at hperm
  exact hperm.symm

/-- The entry of a datagram taken out and another put last. -/
theorem countP_eraseP (hfind : find shard key = some e) (hp : p e' = true → p e = true) :
    (shard.eraseP (fun a => overlapSameDatagram a.key key) ++ [e']).countP p ≤ shard.countP p := by
  rw [List.countP_append, List.countP_singleton]
  induction shard with
  | nil => exact absurd hfind (by simp [find])
  | cons a rest ih =>
    unfold find at hfind
    by_cases hsame : overlapSameDatagram a.key key = true
    · rw [List.find?_cons_of_pos (by exact hsame), Option.some_inj] at hfind
      subst hfind
      rw [List.eraseP_cons_of_pos (by exact hsame), List.countP_cons]
      split_ifs with hnew hold hold
      · exact le_rfl
      · exact absurd (hp hnew) hold
      · exact Nat.le_succ _
      · exact le_rfl
    · rw [List.find?_cons_of_neg (by simpa using hsame)] at hfind
      rw [List.eraseP_cons_of_neg (by simpa using hsame), List.countP_cons, List.countP_cons]
      have := ih hfind
      omega

/-- The entry of a datagram changed in place. -/
theorem countP_updateFirst (hfind : find shard key = some e) (hp : p e' = true → p e = true) :
    (updateFirst key (fun _ => e') shard).countP p ≤ shard.countP p := by
  induction shard with
  | nil => exact le_rfl
  | cons a rest ih =>
    unfold find at hfind
    unfold updateFirst
    by_cases hsame : overlapSameDatagram a.key key = true
    · rw [List.find?_cons_of_pos (by exact hsame), Option.some_inj] at hfind
      subst hfind
      rw [if_pos hsame, List.countP_cons, List.countP_cons]
      split_ifs with hnew hold hold
      · exact le_rfl
      · exact absurd (hp hnew) hold
      · exact Nat.le_succ _
      · exact le_rfl
    · rw [List.find?_cons_of_neg (by simpa using hsame)] at hfind
      rw [if_neg hsame, List.countP_cons, List.countP_cons]
      exact Nat.add_le_add_right (ih hfind) _

end

/-! ## One step -/

/-- A completed entry takes no fragment more. -/
theorem incomplete_of_takes {w : World} {e : OverlapEntry} {f : Fragment} {ranges : List Range} (h : EntryOk w e)
    (hproper : f.start < f.stop) (htakes : Takes e f ranges) : overlapEntryComplete e = false := by
  by_contra hcomplete
  rw [Bool.not_eq_false] at hcomplete
  unfold overlapEntryComplete at hcomplete
  rw [Bool.and_eq_true, Option.any_eq_true] at hcomplete
  obtain ⟨-, n, hterminal, hcover⟩ := hcomplete
  exact not_takes_of_complete hproper hterminal ((rangesCoverTerminal_iff h.normal n).1 hcover) htakes

/-- An entry with a reservation open is not completed. -/
theorem incomplete_of_pending {e : OverlapEntry} (h : e.pending ≠ 0) : overlapEntryComplete e = false := by
  simp [overlapEntryComplete, h]

/-- A class of entries that an entry does not join while it lives, completed or not. -/
def Stable (p : OverlapEntry → Bool) : Prop :=
  ∀ e e', e'.key = e.key → overlapEntryComplete e = false → p e' = true → p e = true

theorem stable_of_key (q : OverlapKey → Bool) : Stable fun e => q e.key := by
  intro e e' hkey _ h
  dsimp only at h ⊢
  rwa [hkey] at h

theorem stable_of_incomplete (q : OverlapKey → Bool) : Stable fun e => !overlapEntryComplete e && q e.key := by
  intro e e' hkey hincomplete h
  dsimp only at h ⊢
  rw [Bool.and_eq_true] at h
  rw [hincomplete, ← hkey, h.2]
  rfl

section

variable {w : World} {p : OverlapEntry → Bool} {cap i : ℕ}

theorem countP_putShard {t : OverlapTracker} {key : OverlapKey} {shard : List OverlapEntry}
    (hle : (t.shards i).countP p ≤ cap) (hshard : (t.shardOf key).countP p ≤ cap → shard.countP p ≤ cap) :
    ((t.putShard key shard).shards i).countP p ≤ cap := by
  rw [shards_putShard]
  split_ifs with hi
  · subst hi
    exact hshard hle
  · exact hle

/-- What a settlement leaves of a class. -/
theorem countP_settles {w' : World} {n : ℕ} {token : OverlapAdmissionToken} (hsettles : Settles w w' n token)
    (hp : Stable p) (hle : (w.tracker.shards i).countP p ≤ cap) : (w'.tracker.shards i).countP p ≤ cap := by
  rcases hsettles.tracker with ⟨-, htracker⟩ | ⟨e, e', hsettled, htoken, -, htracker⟩
  · rw [htracker]
    exact hle
  · obtain ⟨hfind, -, hpending⟩ := settled_eq_some.1 hsettled
    have hkey : e'.key = e.key := congrArg OverlapAdmissionToken.key htoken
    rw [htracker]
    refine countP_putShard hle fun hshard => le_trans ?_ hshard
    exact countP_updateFirst hfind (hp e e' hkey (incomplete_of_pending hpending))

/-- **The rule of the quotas.** A bound on a stable class of entries holds after a step if
it did before, and if room is left in the class where a datagram is admitted to it. -/
theorem countP_step (h : Inv w) (hp : Stable p) (hle : (w.tracker.shards i).countP p ≤ cap) (op : Op)
    (hadmitted : ∀ key start stop isLast now room (e : OverlapEntry), op = .record key start stop isLast now →
      find (swept w.tracker key now.toNat) key = none → i = w.tracker.shardIndex key →
      makeRoom (swept w.tracker key now.toNat) key = .ok room → e.key = key → p e = true → room.countP p < cap) :
    ((w.step op).tracker.shards i).countP p ≤ cap := by
  cases op with
  | check key start stop isLast now =>
    rcases check_tracker w.tracker key start.toNat stop.toNat isLast now.toNat with hsame | hswept
    · change ((w.tracker.checkOverlapFragmentDetailed key start.toNat stop.toNat isLast now.toNat).2.shards i).countP p
        ≤ cap
      rw [hsame]
      exact hle
    · change ((w.tracker.checkOverlapFragmentDetailed key start.toNat stop.toNat isLast now.toNat).2.shards i).countP p
        ≤ cap
      rw [hswept]
      exact countP_putShard hle fun hshard => ((swept_sublist ..).countP_le).trans hshard
  | record key start stop isLast now =>
    have hend : WorldEnd w key ⟨start.toNat, stop.toNat, isLast⟩ now.toNat
        (w.step (.record key start stop isLast now)) := world_end ..
    have hswept : (swept w.tracker key now.toNat).countP p ≤ (w.tracker.shardOf key).countP p :=
      (swept_sublist ..).countP_le
    generalize w.step (.record key start stop isLast now) = w' at hend ⊢
    cases hend with
    | kept _ => exact hle
    | rejected _ _ _ => exact countP_putShard hle hswept.trans
    | full rest _ hroom =>
      refine countP_putShard hle fun hshard => le_trans ?_ (hswept.trans hshard)
      exact ((makeRoom_shrinks _ key).error rest hroom).countP_le
    | extended e ranges hproper hfind htakes =>
      have hmem : e ∈ w.tracker.shardOf key := (swept_sublist ..).subset (mem_of_find hfind).1
      have hincomplete := incomplete_of_takes (h.entries _ e hmem) hproper htakes
      refine countP_putShard hle fun hshard => le_trans ?_ (hswept.trans hshard)
      exact countP_eraseP hfind (hp e _ rfl hincomplete)
    | created room hproper hfind hroom =>
      change ((w.tracker.putShard key _).shards i).countP p ≤ cap
      rw [shards_putShard]
      split_ifs with hi
      · have hrest : room.countP p ≤ cap := by
          subst hi
          exact (((makeRoom_shrinks _ key).ok room hroom).countP_le).trans (hswept.trans hle)
        rw [List.countP_append, List.countP_singleton]
        split_ifs with hnew
        · exact hadmitted key start stop isLast now room _ rfl hfind hi hroom rfl hnew
        · exact hrest
      · exact hle
  | commit n =>
    change ((w.commit n).tracker.shards i).countP p ≤ cap
    cases htaken : w.held[n]? with
    | none => rwa [commit_none htaken]
    | some token => exact countP_settles (settles_commit h htaken) hp hle
  | fail n =>
    change ((w.fail n).tracker.shards i).countP p ≤ cap
    cases htaken : w.held[n]? with
    | none => rwa [fail_none htaken]
    | some token => exact countP_settles (settles_fail h htaken) hp hle

end

/-! ## Making room -/

section

variable {shard rest room : List OverlapEntry} {key : OverlapKey} {count : ℕ}

/-- The entry is one of the candidate's own: of its sender, or of its origin where it has one. -/
def IsOwn (key : OverlapKey) (e : OverlapEntry) : Prop :=
  (key.fairnessOrigin = none → overlapSender e.key = overlapSender key)
    ∧ (key.fairnessOrigin.isSome = true → e.key.fairnessOrigin = key.fairnessOrigin)

theorem IsOwn.sender {e : OverlapEntry} (h : IsOwn key e) : overlapSender e.key = overlapSender key := by
  cases horigin : key.fairnessOrigin with
  | none => exact h.1 horigin
  | some origin =>
    have hsame := h.2 (by rw [horigin]; rfl)
    unfold overlapSender
    rw [hsame, horigin]
    rfl

/-- The sender's quota lets a candidate pass on its count, or for an entry of its own that
is not completed. -/
theorem senderRoom_spec (h : senderRoom shard key = .ok (rest, count)) :
    count = zoneEntries rest key ∧ ((rest = shard ∧ senderEntries shard key < overlapCapPerSenderPerShard)
      ∨ ∃ pos e, shard[pos]? = some e ∧ rest = shard.eraseIdx pos ∧ overlapEntryComplete e = false ∧ IsOwn key e) := by
  unfold senderRoom at h
  split_ifs at h with hroom
  · obtain ⟨rfl, rfl⟩ := Prod.mk.inj (Except.ok.inj h)
    exact ⟨rfl, .inl ⟨rfl, hroom⟩⟩
  · dsimp only at h
    split at h
    · exact absurd h (by simp)
    · next pos hpos =>
      obtain ⟨rfl, rfl⟩ := Prod.mk.inj (Except.ok.inj h)
      obtain ⟨e, he, heligible⟩ := oldest_spec hpos
      have hcount := countP_eraseIdx he fun e => sameZone e.key key
      rw [Bool.and_eq_true, Bool.and_eq_true] at heligible
      obtain ⟨⟨hown, -⟩, hincomplete⟩ := heligible
      refine ⟨?_, .inr ⟨pos, e, he, rfl, ?_, ?_⟩⟩
      · unfold zoneEntries
        rw [he, Option.any_some]
        split_ifs with hzone <;> simp only [hzone, if_true, if_false, Bool.false_eq_true] at hcount <;> omega
      · unfold overlapEntryIncomplete at hincomplete
        simp only [Bool.and_eq_true, Bool.not_eq_true'] at hincomplete
        exact hincomplete.2
      · cases horigin : key.fairnessOrigin with
        | none =>
          rw [horigin] at hown
          exact ⟨fun _ => of_decide_eq_true hown, fun hsome => absurd hsome (by rw [horigin]; decide)⟩
        | some origin =>
          rw [horigin] at hown
          refine ⟨fun hnone => absurd (horigin.symm.trans hnone) (by simp), fun _ => ?_⟩
          rw [horigin]
          exact of_decide_eq_true hown

/-- The zone's reserve lets a candidate pass on its count, or for an entry of the zone. -/
theorem zoneRoom_spec (h : zoneRoom shard count key = .ok rest) :
    (rest = shard ∧ count < overlapCapPerZonePerShard)
      ∨ ∃ pos e, shard[pos]? = some e ∧ rest = shard.eraseIdx pos ∧ sameZone e.key key = true := by
  unfold zoneRoom at h
  split_ifs at h with hroom
  · exact .inl ⟨(Except.ok.inj h).symm, hroom⟩
  · split at h
    · exact absurd h (by simp)
    · next pos hpos =>
      obtain ⟨e, he, heligible⟩ := oldest_spec hpos
      exact .inr ⟨pos, e, he, (Except.ok.inj h).symm, (Bool.and_eq_true _ _ ▸ heligible).1⟩

/-- The capacity lets a candidate pass on the length, or for one entry. -/
theorem shardRoom_spec (h : shardRoom shard key = .ok rest) :
    (rest = shard ∧ shard.length < overlapCapPerShard)
      ∨ ∃ pos e, shard[pos]? = some e ∧ rest = shard.eraseIdx pos := by
  unfold shardRoom at h
  split_ifs at h with hroom
  · exact .inl ⟨(Except.ok.inj h).symm, hroom⟩
  · dsimp only at h
    split at h
    · exact absurd h (by simp)
    · next pos hpos =>
      rcases Option.or_eq_some_iff.1 hpos with hpos | ⟨-, hpos⟩
      · obtain ⟨e, he, -⟩ := oldest_spec hpos
        exact .inr ⟨pos, e, he, (Except.ok.inj h).symm⟩
      · obtain ⟨e, he, -⟩ := oldest_spec hpos
        exact .inr ⟨pos, e, he, (Except.ok.inj h).symm⟩

theorem makeRoom_eq_ok (h : makeRoom shard key = .ok room) :
    ∃ first second, senderRoom shard key = .ok (first, zoneEntries first key)
      ∧ zoneRoom first (zoneEntries first key) key = .ok second ∧ shardRoom second key = .ok room := by
  unfold makeRoom at h
  cases hs : senderRoom shard key with
  | error _ =>
    rw [hs] at h
    exact absurd h (by simp)
  | ok found =>
    obtain ⟨first, count⟩ := found
    obtain ⟨rfl, -⟩ := senderRoom_spec hs
    rw [hs] at h
    dsimp only at h
    cases hz : zoneRoom first (zoneEntries first key) key with
    | error _ =>
      rw [hz] at h
      exact absurd h (by simp)
    | ok second =>
      rw [hz] at h
      exact ⟨first, second, rfl, hz, h⟩

/-- An entry of a full class taken out makes room in it. -/
theorem countP_eraseIdx_lt {pos cap : ℕ} {e : OverlapEntry} {p : OverlapEntry → Bool} (he : shard[pos]? = some e)
    (hp : p e = true) (hle : shard.countP p ≤ cap) : (shard.eraseIdx pos).countP p < cap := by
  have hcount := countP_eraseIdx he p
  rw [if_pos hp] at hcount
  omega

theorem makeRoom_capacity (h : makeRoom shard key = .ok room) (hle : shard.length ≤ overlapCapPerShard) :
    room.length < overlapCapPerShard := by
  obtain ⟨first, second, hsender, hzone, hshard⟩ := makeRoom_eq_ok h
  have hfirst : first.Sublist shard := (senderRoom_shrinks shard key).ok first (by rw [hsender]; rfl)
  have hsecond : second.Sublist first := (zoneRoom_shrinks first _ key).ok second hzone
  have hlength : second.length ≤ overlapCapPerShard := (hsecond.trans hfirst).length_le.trans hle
  rcases shardRoom_spec hshard with ⟨rfl, hlt⟩ | ⟨pos, e, he, rfl⟩
  · exact hlt
  · obtain ⟨hpos, -⟩ := List.getElem?_eq_some_iff.1 he
    rw [List.length_eraseIdx_of_lt hpos]
    omega

theorem makeRoom_zone (h : makeRoom shard key = .ok room) (hle : zoneEntries shard key ≤ overlapCapPerZonePerShard) :
    zoneEntries room key < overlapCapPerZonePerShard := by
  obtain ⟨first, second, hsender, hzone, hshard⟩ := makeRoom_eq_ok h
  have hfirst : first.Sublist shard := (senderRoom_shrinks shard key).ok first (by rw [hsender]; rfl)
  have hroom : room.Sublist second := (shardRoom_shrinks second key).ok room hshard
  refine lt_of_le_of_lt hroom.countP_le ?_
  rcases zoneRoom_spec hzone with ⟨rfl, hlt⟩ | ⟨pos, e, he, rfl, hsame⟩
  · exact hlt
  · exact countP_eraseIdx_lt he hsame (hfirst.countP_le.trans hle)

/-- Room is left in a class of entries that are not completed where the candidate's count
shows it, or where the candidate's own entries are of the class. -/
theorem makeRoom_sender {p : OverlapEntry → Bool} (h : makeRoom shard key = .ok room)
    (hcounted : senderEntries shard key < overlapCapPerSenderPerShard → shard.countP p < overlapCapPerSenderPerShard)
    (hown : ∀ e, overlapEntryComplete e = false → IsOwn key e → p e = true)
    (hle : shard.countP p ≤ overlapCapPerSenderPerShard) : room.countP p < overlapCapPerSenderPerShard := by
  obtain ⟨first, second, hsender, hzone, hshard⟩ := makeRoom_eq_ok h
  have hsecond : second.Sublist first := (zoneRoom_shrinks first _ key).ok second hzone
  have hroom : room.Sublist second := (shardRoom_shrinks second key).ok room hshard
  refine lt_of_le_of_lt (hroom.trans hsecond).countP_le ?_
  obtain ⟨-, ⟨rfl, hlt⟩ | ⟨pos, e, he, rfl, hincomplete, hisOwn⟩⟩ := senderRoom_spec hsender
  · exact hcounted hlt
  · exact countP_eraseIdx_lt he (hown e hincomplete hisOwn) hle

/-- The entries of the candidate's origin are all in its count. -/
theorem originEntries_le {origin : Sender} (h : key.fairnessOrigin = some origin) :
    originEntries shard origin ≤ senderEntries shard key := by
  refine List.countP_mono_left fun e _ he => ?_
  simp only [Bool.and_eq_true, Bool.not_eq_true', decide_eq_true_eq] at he
  unfold overlapEntryCountsForSenderQuota
  simp [he.1, he.2, h]

/-- The count for an arrival candidate is that of its sender. -/
theorem identityEntries_of_arrival (h : key.fairnessOrigin = none) :
    identityEntries shard (overlapSender key) = senderEntries shard key := by
  refine List.countP_congr fun e _ => ?_
  unfold overlapEntryCountsForSenderQuota
  cases overlapEntryComplete e <;> simp [h]

theorem makeRoom_origin {origin : Sender} (h : makeRoom shard key = .ok room) (horigin : key.fairnessOrigin = some origin)
    (hle : originEntries shard origin ≤ overlapCapPerSenderPerShard) :
    originEntries room origin < overlapCapPerSenderPerShard := by
  refine makeRoom_sender h (fun hlt => lt_of_le_of_lt (originEntries_le horigin) hlt) ?_ hle
  intro e hincomplete hown
  have hsame := hown.2 (by rw [horigin]; rfl)
  simp [hincomplete, hsame, horigin]

theorem makeRoom_identity (h : makeRoom shard key = .ok room) (hunknown : find shard key = none)
    (hfair : ¬ Overbooks shard key) (hle : identityEntries shard (overlapSender key) ≤ overlapCapPerSenderPerShard) :
    identityEntries room (overlapSender key) < overlapCapPerSenderPerShard := by
  refine makeRoom_sender h (fun hlt => ?_) ?_ hle
  · by_contra hfull
    cases horigin : key.fairnessOrigin with
    | none => exact hfull (lt_of_eq_of_lt (identityEntries_of_arrival horigin) hlt)
    | some origin =>
      exact hfair ⟨by rw [horigin]; rfl, by rw [hunknown]; rfl, hlt, not_lt.1 hfull⟩
  · intro e hincomplete hown
    simp [hincomplete, hown.sender]

end

/-! ## Every history -/

/-- The bounds that every history keeps. -/
structure Bounded (shard : List OverlapEntry) : Prop where
  capacity : shard.length ≤ overlapCapPerShard
  zones : ∀ domain zone, zoneHeld shard domain zone ≤ overlapCapPerZonePerShard
  origins : ∀ origin, originEntries shard origin ≤ overlapCapPerSenderPerShard

theorem Bounded.sublist {shard rest : List OverlapEntry} (h : Bounded shard) (hrest : rest.Sublist shard) :
    Bounded rest :=
  ⟨hrest.length_le.trans h.capacity, fun domain zone => hrest.countP_le.trans (h.zones domain zone),
    fun origin => hrest.countP_le.trans (h.origins origin)⟩

theorem bounded_step {w : World} (h : Inv w) (hbounded : ∀ i, Bounded (w.tracker.shards i)) (op : Op) (i : ℕ) :
    Bounded ((w.step op).tracker.shards i) := by
  have hswept : ∀ key nowNs, Bounded (swept w.tracker key nowNs) :=
    fun key nowNs => (hbounded _).sublist (swept_sublist ..)
  refine ⟨?_, fun domain zone => ?_, fun origin => ?_⟩
  · rw [← List.countP_true]
    refine countP_step h (stable_of_key fun _ => true) (by rw [List.countP_true]; exact (hbounded i).capacity) op ?_
    intro key start stop isLast now room e _ _ _ hroom _ _
    rw [List.countP_true]
    exact makeRoom_capacity hroom (hswept key now.toNat).capacity
  · refine countP_step h (stable_of_key fun k => k.routingDomain = domain && k.ingressZone = zone)
      ((hbounded i).zones domain zone) op ?_
    intro key start stop isLast now room e _ _ _ hroom hkey hclass
    simp only [hkey, Bool.and_eq_true, decide_eq_true_eq] at hclass
    obtain ⟨rfl, rfl⟩ := hclass
    exact makeRoom_zone hroom ((hswept key now.toNat).zones _ _)
  · refine countP_step h (stable_of_incomplete fun k => k.fairnessOrigin = some origin)
      ((hbounded i).origins origin) op ?_
    intro key start stop isLast now room e _ _ _ hroom hkey hclass
    simp only [hkey, Bool.and_eq_true, decide_eq_true_eq] at hclass
    exact makeRoom_origin hroom hclass.2 ((hswept key now.toNat).origins origin)

theorem bounded_after (seed : UInt64) (ops : List Op) (i : ℕ) :
    Bounded (((World.init seed).after ops).tracker.shards i) := by
  suffices h : Inv ((World.init seed).after ops) ∧ ∀ i, Bounded (((World.init seed).after ops).tracker.shards i) from
    h.2 i
  refine run_invariant (P := fun w : World => Inv w ∧ ∀ i, Bounded (w.tracker.shards i)) ?_ ?_ ops
  · exact ⟨inv_init seed, fun _ => ⟨Nat.zero_le _, fun _ _ => Nat.zero_le _, fun _ => Nat.zero_le _⟩⟩
  · exact fun _ op h => ⟨inv_step h.1 op, bounded_step h.1 h.2 op⟩

theorem identity_step {w : World} (h : Inv w) {op : Op} (hfair : KeepsQuota w op)
    (hle : ∀ i sender, identityEntries (w.tracker.shards i) sender ≤ overlapCapPerSenderPerShard) (i : ℕ)
    (sender : Sender) : identityEntries ((w.step op).tracker.shards i) sender ≤ overlapCapPerSenderPerShard := by
  refine countP_step h (stable_of_incomplete fun k => overlapSender k = sender) (hle i sender) op ?_
  intro key start stop isLast now room e hop hunknown _ hroom hkey hclass
  subst hop
  simp only [hkey, Bool.and_eq_true, decide_eq_true_eq] at hclass
  obtain ⟨-, rfl⟩ := hclass
  exact makeRoom_identity hroom hunknown hfair ((swept_sublist ..).countP_le.trans (hle _ _))

/-- The key under which a datagram arrives in domain 0; the shard does not depend on the
protocol. -/
def arrivalKey (protocol : UInt8) : OverlapKey :=
  ⟨2, .v4 #v[10, 0, 0, 1], .v4 #v[10, 0, 0, 2], 7, protocol, 0, 1, none⟩

/-- Its key in domain 1, to which it goes on with its addresses as they are. -/
def crossingKey (protocol : UInt8) : OverlapKey :=
  { arrivalKey protocol with routingDomain := 1, fairnessOrigin := some (overlapSender (arrivalKey protocol)) }

/-- The first fragment of a datagram recorded under both keys. -/
def crossing (protocol : UInt8) : List Op :=
  [.record (arrivalKey protocol) 0 8 false 1, .record (crossingKey protocol) 0 8 false 1]

/-- Four datagrams whose first fragments are sent, and a fifth: its arrival entry takes the
place of the oldest, but its entry in domain 1 takes no place of the sender's eight. -/
def fiveCrossings : List Op :=
  [1, 6, 17, 47].flatMap crossing ++ List.replicate 8 (.commit 0) ++ crossing 50

end Xpf.FragmentOverlap
