/-
Histories of a port table.

`Inv` is the joint invariant of the bitmap, its counter, the ring and the ring's bits. A
claim that finds a port finds it by the probe: what the probe has passed over without
taking is excluded, held back or taken, so the walk of the ring keeps every token back and
leaves the queue as it was. Tokens therefore never leave the queue, and the time of a
token is the latest time its port was freed at; that is what the quarantine rests on.
-/
import Xpf.PortOccupancy

set_option autoImplicit false

namespace Xpf.PortOccupancy

open Bitmap Runs AddressOccupancy

/-! ## The invariant -/

/-- The bitmap, its counter, the queue and the bits of the queue agree. -/
structure Inv (s : AddressOccupancy) : Prop where
  fits : s.portLow + s.range ≤ 2 ^ 16
  words : s.words.length = (s.range + 63) / 64
  bits : ∀ i, test s.words i = true → i < s.range
  occupied : s.occupied = count s.words
  nwords : s.recycle.nwords = (s.range + 63) / 64
  allocated : s.recycle.queued = [] ∨ s.recycle.queued.length = s.recycle.nwords
  inRange : ∀ token ∈ s.recycle.queue, (s.offsetOf token.1).isSome
  nodup : (s.recycle.queue.map Prod.fst).Nodup
  marked : ∀ off, off < s.range →
    (s.recycle.isQueued off = true ↔ ∃ token ∈ s.recycle.queue, s.offsetOf token.1 = some off)

theorem offsetOf_eq_some {s : AddressOccupancy} {port off : ℕ} :
    s.offsetOf port = some off ↔ port = s.portLow + off ∧ off < s.range := by
  unfold offsetOf
  dsimp only
  split_ifs with hlow hoff
  · simp only [false_iff]
    omega
  · rw [Option.some_inj]
    omega
  · simp only [false_iff]
    omega

theorem offsetOf_add {s : AddressOccupancy} {off : ℕ} (h : off < s.range) : s.offsetOf (s.portLow + off) = some off :=
  offsetOf_eq_some.2 ⟨rfl, h⟩

theorem portOf_eq {s : AddressOccupancy} (h : s.portLow + s.range ≤ 2 ^ 16) {off : ℕ} (hoff : off < s.range) :
    s.portOf off = some (s.portLow + off) := by
  unfold portOf
  rw [if_neg (by omega), Nat.mod_eq_of_lt (by omega), Nat.mod_eq_of_lt (by omega)]

theorem word_lt {s : AddressOccupancy} (h : Inv s) {off : ℕ} (hoff : off < s.range) : off / 64 < s.words.length := by
  rw [h.words]
  omega

theorem inv_ofPorts (portLow portHigh : UInt16) : Inv (ofPorts portLow portHigh) where
  fits := by
    have hhigh : portHigh.toNat < 2 ^ 16 := portHigh.toNat_lt
    have hlow : portLow.toNat < 2 ^ 16 := portLow.toNat_lt
    simp only [ofPorts, new]
    split_ifs with h
    · omega
    · simp only [Bool.or_eq_true, decide_eq_true_eq, not_or, UInt16.lt_iff_toNat_lt] at h
      omega
  words := List.length_replicate
  bits := by
    intro i hi
    rw [show test (ofPorts portLow portHigh).words i = false from test_zeros _ i] at hi
    exact absurd hi Bool.false_ne_true
  occupied := by
    simp [ofPorts, new, count, BitVec.cpop_zero]
  nwords := rfl
  allocated := .inl rfl
  inRange := by
    intro token htoken
    exact absurd htoken List.not_mem_nil
  nodup := List.nodup_nil
  marked := by
    intro off _
    simp [ofPorts, new, RecycleRing.new, RecycleRing.isQueued, test_eq]

/-! ## Taking a port -/

/-- The table with one more port taken. -/
def take (s : AddressOccupancy) (off : ℕ) : AddressOccupancy :=
  { s with words := set s.words off, occupied := s.occupied + 1 }

theorem claimOffset_won {s : AddressOccupancy} {off : ℕ} (h : test s.words off = false) :
    s.claimOffset off = (true, take s off) := by
  simp only [claimOffset, h, Bool.not_false, if_true, take]

theorem claimOffset_lost {s : AddressOccupancy} {off : ℕ} (h : test s.words off = true) :
    s.claimOffset off = (false, s) := by
  simp only [claimOffset, h, set_eq_self h, Bool.not_true, Bool.false_eq_true, if_false]

/-- Only the bitmap and the counter change. -/
theorem Inv.congr {s s' : AddressOccupancy} (h : Inv s) (hlow : s'.portLow = s.portLow) (hrange : s'.range = s.range)
    (hwords : s'.words.length = s.words.length) (hbits : ∀ i, test s'.words i = true → i < s.range)
    (hoccupied : s'.occupied = count s'.words) (hrecycle : s'.recycle = s.recycle) : Inv s' := by
  have hoffset : ∀ port, s'.offsetOf port = s.offsetOf port := by
    intro port
    unfold offsetOf
    rw [hlow, hrange]
  refine ⟨?_, ?_, ?_, hoccupied, ?_, ?_, ?_, ?_, ?_⟩
  · rw [hlow, hrange]; exact h.fits
  · rw [hwords, hrange]; exact h.words
  · intro i hi; rw [hrange]; exact hbits i hi
  · rw [hrecycle, hrange]; exact h.nwords
  · rw [hrecycle]; exact h.allocated
  · intro token htoken
    rw [hoffset]
    exact h.inRange token (hrecycle ▸ htoken)
  · rw [hrecycle]; exact h.nodup
  · intro off hoff
    simp only [hrecycle, hoffset]
    exact h.marked off (hrange ▸ hoff)

theorem inv_take {s : AddressOccupancy} (h : Inv s) {off : ℕ} (hoff : off < s.range)
    (hfree : test s.words off = false) : Inv (take s off) := by
  have hword := word_lt h hoff
  refine h.congr rfl rfl (length_set ..) ?_ ?_ rfl
  · intro i hi
    simp only [take, test_set hword, Bool.or_eq_true, decide_eq_true_eq] at hi
    rcases hi with rfl | hi
    · exact hoff
    · exact h.bits i hi
  · simp only [take]
    rw [count_set hword hfree, h.occupied]

/-! ## The probe -/

/-- How a probe of offsets in the range can end. -/
inductive ProbeEnd (excluded held : ℕ → Bool) (s : AddressOccupancy) (offsets : List ℕ) :
    Option (Option ℕ) × AddressOccupancy → Prop where
  | found (off : ℕ) (hmem : off ∈ offsets) (hexcluded : excluded off = false) (hheld : held off = false)
      (hfree : test s.words off = false) : ProbeEnd excluded held s offsets (some (some (s.portLow + off)), take s off)
  | full (h : s.range ≤ s.occupied) : ProbeEnd excluded held s offsets (some none, s)
  | spent (h : ∀ off ∈ offsets, excluded off = true ∨ held off = true ∨ test s.words off = true) :
      ProbeEnd excluded held s offsets (none, s)

theorem probe_end (excluded held : ℕ → Bool) {s : AddressOccupancy} (hs : Inv s) (offsets : List ℕ)
    (hoffsets : ∀ off ∈ offsets, off < s.range) : ProbeEnd excluded held s offsets (probe excluded held s offsets) := by
  induction offsets with
  | nil => exact .spent (by intro off hoff; exact absurd hoff List.not_mem_nil)
  | cons off rest ih =>
    have hoff := hoffsets off List.mem_cons_self
    have hrest := ih fun o ho => hoffsets o (List.mem_cons_of_mem _ ho)
    -- an offset that is passed over leaves the question to the rest
    have hpass : (excluded off = true ∨ held off = true ∨ test s.words off = true) →
        ProbeEnd excluded held s (off :: rest) (probe excluded held s rest) := by
      intro hskip
      generalize probe excluded held s rest = result at hrest
      cases hrest with
      | found o hmem hexcluded hheld hfree => exact .found o (List.mem_cons_of_mem _ hmem) hexcluded hheld hfree
      | full h => exact .full h
      | spent h =>
        refine .spent fun o ho => ?_
        rcases List.mem_cons.1 ho with rfl | ho
        · exact hskip
        · exact h o ho
    unfold probe
    by_cases hexcluded : excluded off = true
    · rw [if_pos hexcluded]
      exact hpass (.inl hexcluded)
    rw [if_neg hexcluded]
    by_cases hheld : held off = true
    · rw [if_pos hheld]
      exact hpass (.inr (.inl hheld))
    rw [if_neg hheld]
    cases htest : test s.words off with
    | false =>
      rw [claimOffset_won htest]
      simp only [if_true]
      rw [show (take s off).portOf off = some (s.portLow + off) from portOf_eq hs.fits hoff]
      exact .found off List.mem_cons_self (by simpa using hexcluded) (by simpa using hheld) htest
    | true =>
      rw [claimOffset_lost htest]
      simp only [Bool.false_eq_true, if_false]
      by_cases hfull : s.range ≤ s.occupied
      · rw [if_pos hfull]
        exact .full hfull
      · rw [if_neg hfull]
        exact hpass (.inr (.inr htest))

theorem mem_probeOffsets {s : AddressOccupancy} (hs : Inv s) {start off : ℕ} (hstart : start < s.range) :
    off ∈ s.probeOffsets start ↔ off < s.range := by
  have hfits := hs.fits
  unfold probeOffsets
  rw [List.mem_map]
  constructor
  · rintro ⟨i, -, rfl⟩
    exact Nat.mod_lt _ (by omega)
  · intro hoff
    -- `off` is reached after going from `start` to the end of the range and round
    refine ⟨(off + s.range - start) % s.range, List.mem_range.2 (Nat.mod_lt _ (by omega)), ?_⟩
    have hsmall : (off + s.range - start) % s.range < s.range := Nat.mod_lt _ (by omega)
    rw [Nat.mod_eq_of_lt (show start + (off + s.range - start) % s.range < 2 ^ 32 by omega), Nat.add_mod_mod,
      show start + (off + s.range - start) = off + s.range by omega, Nat.add_mod_right, Nat.mod_eq_of_lt hoff]

theorem patKeyedOffset_lt (secret key : UInt64) {range : ℕ} (h : range ≠ 0) : patKeyedOffset secret key range < range := by
  unfold patKeyedOffset
  rw [if_neg h]
  exact Nat.mod_lt _ (by omega)

/-! ## The ring -/

/-- The bits of the ring are not allocated, or are there for the whole range. -/
def Allocated (r : RecycleRing) : Prop := r.queued = [] ∨ r.queued.length = r.nwords

namespace RecycleRing

theorem isQueued_mark {r : RecycleRing} (h : Allocated r) {off : ℕ} (hoff : off / 64 < r.nwords) (j : ℕ) :
    (r.mark off).isQueued j = (decide (j = off) || r.isQueued j) := by
  unfold mark isQueued
  dsimp only
  by_cases hempty : r.queued = []
  · simp only [hempty, List.isEmpty_nil, if_true]
    rw [test_set (by simpa using hoff), test_zeros]
    simp [test_eq]
  · have hlength : r.queued.length = r.nwords := h.resolve_left hempty
    rw [if_neg (by simpa using hempty), test_set (by omega)]

theorem allocated_mark {r : RecycleRing} (h : Allocated r) (off : ℕ) : Allocated (r.mark off) := by
  refine .inr ?_
  unfold mark
  dsimp only
  rw [length_set]
  by_cases hempty : r.queued = []
  · simp only [hempty, List.isEmpty_nil, if_true, List.length_replicate]
  · rw [if_neg (by simpa using hempty)]
    exact h.resolve_left hempty

theorem isQueued_unmark (r : RecycleRing) (off j : ℕ) :
    (r.unmark off).isQueued j = (decide (j ≠ off) && r.isQueued j) := test_clear ..

theorem allocated_unmark {r : RecycleRing} (h : Allocated r) (off : ℕ) : Allocated (r.unmark off) := by
  unfold Allocated unmark
  dsimp only
  rw [length_clear]
  rcases h with h | h
  · rw [h]
    exact .inl (List.modify_nil ..)
  · exact .inr h

end RecycleRing

/-- Every token of the ring stays where the walk finds it: it is excluded, held back, or
its port is taken. -/
def Stuck (excluded : ℕ → Bool) (nowNs : ℕ) (s : AddressOccupancy) (token : ℕ × ℕ) : Prop :=
  ∃ off, s.offsetOf token.1 = some off
    ∧ (excluded off = true ∨ quarantined s.range token.2 nowNs = true ∨ test s.words off = true)

/-- What a walk keeps back of a token. -/
def retain (s : AddressOccupancy) (token : ℕ × ℕ) : ℕ × ℕ × ℕ := (token.1, (s.offsetOf token.1).getD 0, token.2)

/-- A table that differs from `s` in the ring's bits, the scan counters and the queue
only. -/
structure Walked (s s' : AddressOccupancy) : Prop where
  portLow : s'.portLow = s.portLow
  range : s'.range = s.range
  words : s'.words = s.words
  occupied : s'.occupied = s.occupied
  nwords : s'.recycle.nwords = s.recycle.nwords
  allocated : Allocated s.recycle → Allocated s'.recycle

theorem Walked.offsetOf {s s' : AddressOccupancy} (h : Walked s s') (port : ℕ) :
    s'.offsetOf port = s.offsetOf port := by
  unfold AddressOccupancy.offsetOf
  rw [h.portLow, h.range]

/-- A walk over stuck tokens claims nothing, keeps all of them back, and touches the bits
of their offsets only. -/
theorem drain_stuck (excluded : ℕ → Bool) (nowNs : ℕ) (tokens : List (ℕ × ℕ)) :
    ∀ (s : AddressOccupancy) (retained : List (ℕ × ℕ × ℕ)) (pops : ℕ),
      (∀ token ∈ tokens, Stuck excluded nowNs s token) →
      let walk := drain excluded nowNs s tokens retained pops
      walk.claimed = none ∧ Walked s walk.table ∧ walk.retained = retained ++ tokens.map (retain s)
        ∧ walk.table.recycle.queue = []
        ∧ ∀ off, (∀ token ∈ tokens, s.offsetOf token.1 ≠ some off) →
          walk.table.recycle.isQueued off = s.recycle.isQueued off := by
  induction tokens with
  | nil =>
    intro s retained pops _
    exact ⟨rfl, ⟨rfl, rfl, rfl, rfl, rfl, id⟩, (List.append_nil _).symm, rfl, fun _ _ => rfl⟩
  | cons token rest ih =>
    intro s retained pops hstuck
    obtain ⟨off, hoffset, hwhy⟩ := hstuck token List.mem_cons_self
    have hrest : ∀ t ∈ rest, Stuck excluded nowNs s t := fun t ht => hstuck t (List.mem_cons_of_mem _ ht)
    have hretain : retain s token = (token.1, off, token.2) := by
      simp only [retain, hoffset, Option.getD_some]
    -- the walk goes on from a table that differs in the bit of `off` at most
    have hon : ∀ s₁, Walked s s₁ → (∀ o, o ≠ off → s₁.recycle.isQueued o = s.recycle.isQueued o) →
        let walk := drain excluded nowNs s₁ rest (retained ++ [(token.1, off, token.2)]) (pops + 1)
        walk.claimed = none ∧ Walked s walk.table ∧ walk.retained = retained ++ (token :: rest).map (retain s)
          ∧ walk.table.recycle.queue = []
          ∧ ∀ o, (∀ t ∈ token :: rest, s.offsetOf t.1 ≠ some o) →
            walk.table.recycle.isQueued o = s.recycle.isQueued o := by
      intro s₁ hwalked hbits
      have hsame : ∀ t, retain s₁ t = retain s t := by
        intro t
        simp only [retain, hwalked.offsetOf]
      have hstuck₁ : ∀ t ∈ rest, Stuck excluded nowNs s₁ t := by
        intro t ht
        obtain ⟨o, ho, hw⟩ := hrest t ht
        refine ⟨o, (hwalked.offsetOf _).trans ho, ?_⟩
        rw [hwalked.range, hwalked.words]
        exact hw
      obtain ⟨hclaimed, hwalk, hkept, hqueue, hqueued⟩ :=
        ih s₁ (retained ++ [(token.1, off, token.2)]) (pops + 1) hstuck₁
      refine ⟨hclaimed, ?_, ?_, hqueue, ?_⟩
      · exact ⟨hwalk.portLow.trans hwalked.portLow, hwalk.range.trans hwalked.range,
          hwalk.words.trans hwalked.words, hwalk.occupied.trans hwalked.occupied,
          hwalk.nwords.trans hwalked.nwords, fun h => hwalk.allocated (hwalked.allocated h)⟩
      · rw [hkept, List.map_cons, hretain, List.append_assoc, List.map_congr_left fun t _ => hsame t]
        rfl
      · intro o ho
        have hne : o ≠ off := fun e => ho token List.mem_cons_self (e ▸ hoffset)
        rw [hqueued o, hbits o hne]
        intro t ht
        rw [hwalked.offsetOf]
        exact ho t (List.mem_cons_of_mem _ ht)
    have hself := hon s ⟨rfl, rfl, rfl, rfl, rfl, id⟩ fun _ _ => rfl
    unfold drain
    simp only [hoffset]
    by_cases hexcluded : excluded off = true
    · rw [if_pos hexcluded]
      exact hself
    rw [if_neg hexcluded]
    by_cases hquarantined : quarantined s.range token.2 nowNs = true
    · rw [if_pos hquarantined]
      exact hself
    rw [if_neg hquarantined]
    have htaken : test s.words off = true := (hwhy.resolve_left hexcluded).resolve_left hquarantined
    rw [claimOffset_lost (s := { s with recycle := s.recycle.unmark off }) htaken]
    simp only [Bool.false_eq_true, if_false]
    refine hon _ ⟨rfl, rfl, rfl, rfl, rfl, fun h => RecycleRing.allocated_unmark h off⟩ fun o ho => ?_
    dsimp only
    rw [RecycleRing.isQueued_unmark]
    simp [ho]

theorem requeueAll_eq (retained : List (ℕ × ℕ × ℕ)) :
    ∀ r : RecycleRing, Allocated r → (∀ token ∈ retained, token.2.1 / 64 < r.nwords) →
      (requeueAll r retained).queue = r.queue ++ retained.map (fun token => (token.1, token.2.2))
        ∧ (requeueAll r retained).nwords = r.nwords ∧ Allocated (requeueAll r retained)
        ∧ ∀ off, (requeueAll r retained).isQueued off = true ↔
          r.isQueued off = true ∨ ∃ token ∈ retained, token.2.1 = off := by
  induction retained with
  | nil =>
    intro r hr _
    exact ⟨(List.append_nil _).symm, rfl, hr, by simp [requeueAll]⟩
  | cons token rest ih =>
    intro r hr hwords
    have hword := hwords token List.mem_cons_self
    obtain ⟨hqueue, hnwords, halloc, hqueued⟩ := ih (r.requeue token.1 token.2.1 token.2.2)
      (RecycleRing.allocated_mark hr _) fun t ht => hwords t (List.mem_cons_of_mem _ ht)
    have hmark : ∀ off, (r.requeue token.1 token.2.1 token.2.2).isQueued off = true ↔
        off = token.2.1 ∨ r.isQueued off = true := by
      intro off
      have := RecycleRing.isQueued_mark hr hword off
      simp only [RecycleRing.isQueued, RecycleRing.requeue] at this ⊢
      rw [this]
      simp
    refine ⟨?_, hnwords, halloc, ?_⟩
    · have hfirst : (r.requeue token.1 token.2.1 token.2.2).queue = r.queue ++ [(token.1, token.2.2)] := rfl
      rw [hfirst, List.append_assoc] at hqueue
      exact hqueue
    · intro off
      refine (hqueued off).trans ?_
      rw [hmark off, List.exists_mem_cons_iff]
      constructor
      · rintro ((rfl | h) | h)
        · exact .inr (.inl rfl)
        · exact .inl h
        · exact .inr (.inr h)
      · rintro (h | rfl | h)
        · exact .inl (.inr h)
        · exact .inl (.inl rfl)
        · exact .inr h

/-! ## A claim -/

/-- The offset is held back by the quarantine of a small range. -/
def heldBack (s : AddressOccupancy) (nowNs off : ℕ) : Bool :=
  s.range ≤ smallPoolQuarantineMaxRange && s.isQuarantined nowNs off

theorem token_eq {s : AddressOccupancy} (hs : Inv s) {token token' : ℕ × ℕ} (h : token ∈ s.recycle.queue)
    (h' : token' ∈ s.recycle.queue) (hport : token.1 = token'.1) : token = token' :=
  List.inj_on_of_nodup_map hs.nodup h h' hport

theorem mem_queue_of_isQuarantined {s : AddressOccupancy} {nowNs off : ℕ} (h : s.isQuarantined nowNs off = true) :
    ∃ token ∈ s.recycle.queue, s.offsetOf token.1 = some off ∧ quarantined s.range token.2 nowNs = true := by
  obtain ⟨token, htoken, hboth⟩ := List.any_eq_true.1 h
  rw [Bool.and_eq_true, decide_eq_true_eq] at hboth
  exact ⟨token, htoken, hboth⟩

/-- A table whose ring has been walked to no avail: the bits and the queue are what they
were. -/
structure Same (s s' : AddressOccupancy) : Prop extends Walked s s' where
  queue : s'.recycle.queue = s.recycle.queue
  queued : ∀ off, off < s.range → s'.recycle.isQueued off = s.recycle.isQueued off

theorem Same.refl (s : AddressOccupancy) : Same s s := ⟨⟨rfl, rfl, rfl, rfl, rfl, id⟩, rfl, fun _ _ => rfl⟩

theorem Same.inv {s s' : AddressOccupancy} (h : Same s s') (hs : Inv s) : Inv s' where
  fits := by rw [h.portLow, h.range]; exact hs.fits
  words := by rw [h.words, h.range]; exact hs.words
  bits := by rw [h.words, h.range]; exact hs.bits
  occupied := by rw [h.occupied, h.words]; exact hs.occupied
  nwords := by rw [h.nwords, h.range]; exact hs.nwords
  allocated := h.allocated hs.allocated
  inRange := by
    intro token htoken
    rw [h.offsetOf]
    exact hs.inRange token (h.queue ▸ htoken)
  nodup := by rw [h.queue]; exact hs.nodup
  marked := by
    intro off hoff
    have hoff : off < s.range := h.range ▸ hoff
    rw [h.queued off hoff, h.queue]
    simp only [h.offsetOf]
    exact hs.marked off hoff

/-- How a claim can end: with a port the probe has found, or with nothing. -/
inductive ClaimEnd (excluded : ℕ → Bool) (nowNs : ℕ) (s : AddressOccupancy) : Option ℕ × AddressOccupancy → Prop where
  | found (off : ℕ) (hoff : off < s.range) (hexcluded : excluded off = false) (hheld : heldBack s nowNs off = false)
      (hfree : test s.words off = false) : ClaimEnd excluded nowNs s (some (s.portLow + off), take s off)
  | none (s' : AddressOccupancy) (hsame : Same s s')
      (h : ∀ off, off < s.range → excluded off = true ∨ heldBack s nowNs off = true ∨ test s.words off = true) :
      ClaimEnd excluded nowNs s (none, s')

theorem taken_of_full {s : AddressOccupancy} (hs : Inv s) (h : s.range ≤ s.occupied) {off : ℕ} (hoff : off < s.range) :
    test s.words off = true := by
  rw [hs.occupied] at h
  exact test_of_le_count hs.bits h hoff

/-- After a probe that has found nothing, the walk of the ring finds nothing either. -/
theorem claimRecycled_end (excluded : ℕ → Bool) (nowNs : ℕ) {s : AddressOccupancy} (hs : Inv s)
    (hspent : ∀ off, off < s.range → excluded off = true ∨ heldBack s nowNs off = true ∨ test s.words off = true) :
    ClaimEnd excluded nowNs s (s.claimRecycled excluded nowNs) := by
  unfold claimRecycled
  by_cases hfull : s.range ≤ s.occupied
  · rw [if_pos hfull]
    exact .none s (Same.refl s) fun off hoff => .inr (.inr (taken_of_full hs hfull hoff))
  rw [if_neg hfull]
  have hoffset : ∀ token ∈ s.recycle.queue, ∃ off, s.offsetOf token.1 = some off ∧ off < s.range := by
    intro token htoken
    obtain ⟨off, hoff⟩ := Option.isSome_iff_exists.1 (hs.inRange token htoken)
    exact ⟨off, hoff, (offsetOf_eq_some.1 hoff).2⟩
  have hstuck : ∀ token ∈ s.recycle.queue,
      Stuck excluded nowNs { s with recycleScanWalks := s.recycleScanWalks + 1 } token := by
    intro token htoken
    obtain ⟨off, hoff, hlt⟩ := hoffset token htoken
    refine ⟨off, hoff, ?_⟩
    rcases hspent off hlt with h | h | h
    · exact .inl h
    · -- the token that holds the offset back is this one
      obtain ⟨token', htoken', hoff', hquarantined⟩ :=
        mem_queue_of_isQuarantined (Bool.and_eq_true _ _ ▸ h : _ ∧ _).2
      have hport : token.1 = token'.1 := by
        rw [(offsetOf_eq_some.1 hoff).1, (offsetOf_eq_some.1 hoff').1]
      rw [token_eq hs htoken htoken' hport]
      exact .inr (.inl hquarantined)
    · exact .inr (.inr h)
  obtain ⟨hclaimed, hwalked, hretained, hqueue, hqueued⟩ := drain_stuck excluded nowNs s.recycle.queue _ [] 0 hstuck
  rw [List.nil_append] at hretained
  generalize drain excluded nowNs { s with recycleScanWalks := s.recycleScanWalks + 1 } s.recycle.queue [] 0 = walk at *
  have hmem : ∀ token ∈ walk.retained, ∃ t ∈ s.recycle.queue, retain s t = token := by
    intro token htoken
    rw [hretained] at htoken
    exact List.mem_map.1 htoken
  have hwords : ∀ token ∈ walk.retained, token.2.1 / 64 < walk.table.recycle.nwords := by
    intro token htoken
    obtain ⟨t, ht, rfl⟩ := hmem token htoken
    obtain ⟨off, hoff, hlt⟩ := hoffset t ht
    rw [hwalked.nwords]
    simp only [retain, hoff, Option.getD_some]
    have := hs.nwords
    omega
  obtain ⟨hqueue', hnwords', halloc', hqueued'⟩ :=
    requeueAll_eq walk.retained walk.table.recycle (hwalked.allocated hs.allocated) hwords
  dsimp only
  rw [hclaimed]
  refine .none _ ⟨⟨hwalked.portLow, hwalked.range, hwalked.words, hwalked.occupied,
    hnwords'.trans hwalked.nwords, fun _ => halloc'⟩, ?_, ?_⟩ hspent
  · have hback : ∀ t, (fun token : ℕ × ℕ × ℕ => (token.1, token.2.2)) (retain s t) = t := fun _ => rfl
    rw [hqueue', hqueue, hretained, List.map_map, List.nil_append]
    exact List.map_id'' hback _
  · intro off hoff
    rw [Bool.eq_iff_iff, hqueued' off]
    by_cases htoken : ∃ token ∈ s.recycle.queue, s.offsetOf token.1 = some off
    · obtain ⟨token, hmem, hoffset'⟩ := htoken
      refine iff_of_true (.inr ⟨retain s token, ?_, ?_⟩) ((hs.marked off hoff).2 ⟨token, hmem, hoffset'⟩)
      · rw [hretained]
        exact List.mem_map_of_mem hmem
      · simp only [retain, hoffset', Option.getD_some]
    · rw [hqueued off (fun t ht h => htoken ⟨t, ht, h⟩)]
      refine ⟨fun h => h.resolve_right ?_, .inl⟩
      rintro ⟨token, hin, heq⟩
      obtain ⟨t, ht, rfl⟩ := hmem token hin
      obtain ⟨o, ho, -⟩ := hoffset t ht
      simp only [retain, ho, Option.getD_some] at heq
      exact htoken ⟨t, ht, heq ▸ ho⟩

theorem claim_end (key secret : UInt64) (excluded : ℕ → Bool) (nowNs : ℕ) {s : AddressOccupancy} (hs : Inv s) :
    ClaimEnd excluded nowNs s (s.claimSeededFilteredAt key secret excluded nowNs) := by
  unfold claimSeededFilteredAt
  by_cases hrange : s.range = 0
  · rw [if_pos hrange]
    exact .none s (Same.refl s) fun off hoff => by omega
  rw [if_neg hrange]
  by_cases hfull : s.range ≤ s.occupied
  · rw [if_pos hfull]
    exact .none s (Same.refl s) fun off hoff => .inr (.inr (taken_of_full hs hfull hoff))
  rw [if_neg hfull]
  have hmem : ∀ off, off ∈ s.probeOffsets (patKeyedOffset secret key s.range) ↔ off < s.range :=
    fun off => mem_probeOffsets hs (patKeyedOffset_lt secret key hrange)
  have hprobe := probe_end excluded (heldBack s nowNs) hs _ fun off hoff => (hmem off).1 hoff
  dsimp only
  rw [show (fun off => s.range ≤ smallPoolQuarantineMaxRange && s.isQuarantined nowNs off)
    = heldBack s nowNs from rfl]
  generalize probe excluded (heldBack s nowNs) s (s.probeOffsets (patKeyedOffset secret key s.range)) = result at hprobe
  cases hprobe with
  | found off hoff hexcluded hheld hfree => exact .found off ((hmem off).1 hoff) hexcluded hheld hfree
  | full h => exact .none s (Same.refl s) fun off hoff => .inr (.inr (taken_of_full hs h hoff))
  | spent h => exact claimRecycled_end excluded nowNs hs fun off hoff => h off ((hmem off).2 hoff)

/-! ## A block -/

theorem lowMask_getLsbD {k : ℕ} (hk : k < 64) (b : ℕ) : ((1#64 <<< k) - 1).getLsbD b = decide (b < k) := by
  have hpow : 2 ^ k < 2 ^ 64 := Nat.pow_lt_pow_right (by decide) hk
  have hpos : 0 < 2 ^ k := Nat.two_pow_pos k
  have hvalue : ((1#64 <<< k) - 1).toNat = 2 ^ k - 1 := by
    rw [← BitVec.twoPow_eq, BitVec.toNat_sub, BitVec.toNat_twoPow, Nat.mod_eq_of_lt hpow]
    rw [show (1 : Word).toNat = 1 from rfl]
    omega
  rw [BitVec.getLsbD, hvalue, Nat.testBit_two_pow_sub_one]

/-- A pending bit is a free position of the block. -/
theorem free_of_pending {s : AddressOccupancy} {start stop w b : ℕ}
    (h : (s.pendingOf start stop w).getLsbD b = true) :
    b < 64 ∧ test s.words (w * 64 + b) = false ∧ (w = start / 64 → start % 64 ≤ b)
      ∧ (w = stop / 64 → b ≤ stop % 64) := by
  have hb : b < 64 := BitVec.lt_of_getLsbD h
  have hstart : start % 64 < 64 := Nat.mod_lt _ (by decide)
  unfold pendingOf at h
  dsimp only at h
  rw [BitVec.getLsbD_not] at h
  simp only [hb, decide_true, Bool.true_and, Bool.not_eq_true'] at h
  have hlead : ∀ word : Word, (if w = start / 64 ∧ start % 64 ≠ 0 then word ||| ((1#64 <<< (start % 64)) - 1)
      else word).getLsbD b = false → word.getLsbD b = false ∧ (w = start / 64 → start % 64 ≤ b) := by
    intro word hword
    split_ifs at hword with hcase
    · rw [BitVec.getLsbD_or, lowMask_getLsbD hstart b, Bool.or_eq_false_iff, decide_eq_false_iff_not] at hword
      exact ⟨hword.1, fun _ => Nat.not_lt.1 hword.2⟩
    · refine ⟨hword, fun hw => ?_⟩
      have hzero : start % 64 = 0 := by
        by_contra hne
        exact hcase ⟨hw, hne⟩
      omega
  have htail : ∀ word : Word, (if w = stop / 64 ∧ stop % 64 ≠ 63 then
      word ||| ~~~ ((1#64 <<< (stop % 64 + 1)) - 1) else word).getLsbD b = false →
      word.getLsbD b = false ∧ (w = stop / 64 → b ≤ stop % 64) := by
    intro word hword
    split_ifs at hword with hcase
    · have hshift : stop % 64 + 1 < 64 := by omega
      rw [BitVec.getLsbD_or, BitVec.getLsbD_not, lowMask_getLsbD hshift b, Bool.or_eq_false_iff] at hword
      simp only [hb, decide_true, Bool.true_and, Bool.not_eq_false', decide_eq_true_eq] at hword
      exact ⟨hword.1, fun _ => by omega⟩
    · refine ⟨hword, fun hw => ?_⟩
      have hlast : stop % 64 = 63 := by
        by_contra hne
        exact hcase ⟨hw, hne⟩
      omega
  obtain ⟨hword, hstop⟩ := htail _ h
  obtain ⟨hbit, hfirst⟩ := hlead _ hword
  refine ⟨hb, ?_, hfirst, hstop⟩
  rw [test_eq, show (w * 64 + b) / 64 = w by omega, show (w * 64 + b) % 64 = b by omega]
  exact hbit

/-- How a block claim can end. -/
inductive BlockEnd (start stop : ℕ) (s : AddressOccupancy) : Option ℕ × AddressOccupancy → Prop where
  | found (off : ℕ) (hstart : start ≤ off) (hstop : off ≤ stop) (hfree : test s.words off = false) :
      BlockEnd start stop s (some (s.portLow + off), take s off)
  | none : BlockEnd start stop s (none, s)

/-- The lowest pending bit is won at once. -/
theorem claimWords_end {s : AddressOccupancy} (hs : Inv s) {start stop : ℕ} (hstop : stop < s.range) (ws : List ℕ)
    (hws : ∀ w ∈ ws, start / 64 ≤ w ∧ w ≤ stop / 64) : BlockEnd start stop s (claimWords start stop s ws) := by
  induction ws with
  | nil => exact .none
  | cons w rest ih =>
    unfold claimWords claimPending
    by_cases hpending : s.pendingOf start stop w = 0
    · rw [if_pos hpending]
      exact ih fun v hv => hws v (List.mem_cons_of_mem _ hv)
    obtain ⟨hb, hfree, hfirst, hlast⟩ :=
      free_of_pending (BitVec.getLsbD_true_ctz_of_ne_zero (x := s.pendingOf start stop w) hpending)
    obtain ⟨hlow, hhigh⟩ := hws w List.mem_cons_self
    generalize (s.pendingOf start stop w).ctz.toNat = b at hb hfree hfirst hlast ⊢
    have hbelow : w * 64 + b ≤ stop := by
      by_cases hw : w = stop / 64
      · have := hlast hw
        omega
      · omega
    have habove : start ≤ w * 64 + b := by
      by_cases hw : w = start / 64
      · have := hfirst hw
        omega
      · omega
    rw [if_neg hpending]
    simp only [claimOffset_won hfree, if_true]
    rw [show (take s (w * 64 + b)).portOf (w * 64 + b) = some (s.portLow + (w * 64 + b)) from
      portOf_eq hs.fits (by omega : w * 64 + b < s.range)]
    exact .found _ habove hbelow hfree

/-! ## A free -/

section Restamp

variable (port nowNs : ℕ)

theorem map_fst_restamp (queue : List (ℕ × ℕ)) :
    (RecycleRing.restamp port nowNs queue).map Prod.fst = queue.map Prod.fst := by
  induction queue with
  | nil => rfl
  | cons token rest ih =>
    unfold RecycleRing.restamp
    split_ifs <;> simp [ih]

theorem mem_restamp_of_mem {queue : List (ℕ × ℕ)} {p t : ℕ} (h : (p, t) ∈ queue) :
    ∃ t', t ≤ t' ∧ (p, t') ∈ RecycleRing.restamp port nowNs queue := by
  induction queue with
  | nil => exact absurd h List.not_mem_nil
  | cons token rest ih =>
    unfold RecycleRing.restamp
    rcases List.mem_cons.1 h with rfl | h
    · split_ifs
      · exact ⟨max t nowNs, le_max_left _ _, List.mem_cons_self⟩
      · exact ⟨t, le_rfl, List.mem_cons_self⟩
    · split_ifs
      · exact ⟨t, le_rfl, List.mem_cons_of_mem _ h⟩
      · obtain ⟨t', hle, hmem⟩ := ih h
        exact ⟨t', hle, List.mem_cons_of_mem _ hmem⟩

theorem mem_of_mem_restamp {queue : List (ℕ × ℕ)} {p t : ℕ} (h : (p, t) ∈ RecycleRing.restamp port nowNs queue) :
    (p, t) ∈ queue ∨ (p = port ∧ t = nowNs) := by
  induction queue with
  | nil => exact absurd h List.not_mem_nil
  | cons token rest ih =>
    unfold RecycleRing.restamp at h
    split_ifs at h with hport
    · rcases List.mem_cons.1 h with heq | h
      · obtain ⟨rfl, rfl⟩ := Prod.mk.inj heq
        rcases max_choice token.2 nowNs with hmax | hmax
        · rw [hmax]
          exact .inl List.mem_cons_self
        · exact .inr ⟨hport, hmax⟩
      · exact .inl (List.mem_cons_of_mem _ h)
    · rcases List.mem_cons.1 h with rfl | h
      · exact .inl List.mem_cons_self
      · exact (ih h).imp_left (List.mem_cons_of_mem _)

/-- The token of the port is as late as the free. -/
theorem restamped {queue : List (ℕ × ℕ)} (h : port ∈ queue.map Prod.fst) :
    ∃ t, nowNs ≤ t ∧ (port, t) ∈ RecycleRing.restamp port nowNs queue := by
  induction queue with
  | nil => exact absurd h List.not_mem_nil
  | cons token rest ih =>
    unfold RecycleRing.restamp
    split_ifs with hport
    · subst hport
      exact ⟨max token.2 nowNs, le_max_right _ _, List.mem_cons_self⟩
    · have hrest : port ∈ rest.map Prod.fst := by
        rcases List.mem_cons.1 h with heq | h
        · exact absurd heq.symm hport
        · exact h
      obtain ⟨t, hle, hmem⟩ := ih hrest
      exact ⟨t, hle, List.mem_cons_of_mem _ hmem⟩

end Restamp

/-- The table with a port given back. -/
def give (s : AddressOccupancy) (off nowNs : ℕ) : AddressOccupancy :=
  { s with
    words := clear s.words off
    occupied := s.occupied - 1
    recycle := (s.recycle.pushAt (s.portLow + off) (some off) nowNs).2 }

/-- What a free does to the ring: the token of the port is there and as late as the free,
no other token goes, and the bits follow. -/
structure Pushed (port off nowNs : ℕ) (r r' : RecycleRing) : Prop where
  nwords : r'.nwords = r.nwords
  allocated : Allocated r'
  ports : r'.queue.map Prod.fst = r.queue.map Prod.fst
    ∨ port ∉ r.queue.map Prod.fst ∧ r'.queue.map Prod.fst = r.queue.map Prod.fst ++ [port]
  latest : ∃ t, nowNs ≤ t ∧ (port, t) ∈ r'.queue
  kept : ∀ p t, (p, t) ∈ r.queue → ∃ t', t ≤ t' ∧ (p, t') ∈ r'.queue
  known : ∀ p t, (p, t) ∈ r'.queue → (p, t) ∈ r.queue ∨ (p = port ∧ t = nowNs)
  queued : ∀ j, r'.isQueued j = (decide (j = off) || r.isQueued j)

theorem pushAt_pushed {r : RecycleRing} (hr : Allocated r) {port off : ℕ} (nowNs : ℕ) (hoff : off / 64 < r.nwords)
    (hmarked : r.isQueued off = true ↔ port ∈ r.queue.map Prod.fst) :
    Pushed port off nowNs r (r.pushAt port (some off) nowNs).2 := by
  unfold RecycleRing.pushAt
  by_cases hqueued : r.isQueued off = true
  · simp only [if_pos hqueued]
    refine ⟨rfl, hr, .inl (map_fst_restamp ..), restamped port nowNs (hmarked.1 hqueued), ?_, ?_, ?_⟩
    · exact fun p t h => mem_restamp_of_mem port nowNs h
    · exact fun p t h => mem_of_mem_restamp port nowNs h
    · intro j
      by_cases hj : j = off
      · subst hj
        simp only [decide_true, Bool.true_or]
        exact hqueued
      · simp only [hj, decide_false, Bool.false_or]
        rfl
  · simp only [if_neg hqueued]
    have hqueue : (r.mark off).queue = r.queue := rfl
    refine ⟨rfl, RecycleRing.allocated_mark hr off, .inr ⟨fun h => hqueued (hmarked.2 h), ?_⟩,
      ⟨nowNs, le_rfl, ?_⟩, ?_, ?_, ?_⟩
    · rw [hqueue, List.map_append]
      rfl
    · exact List.mem_append_right _ List.mem_cons_self
    · exact fun p t h => ⟨t, le_rfl, List.mem_append_left _ h⟩
    · intro p t h
      rcases List.mem_append.1 h with h | h
      · exact .inl h
      · exact .inr (Prod.mk.inj (List.mem_singleton.1 h))
    · exact fun j => RecycleRing.isQueued_mark hr hoff j

theorem mem_ports_iff {s : AddressOccupancy} {off : ℕ} (hoff : off < s.range) :
    s.portLow + off ∈ s.recycle.queue.map Prod.fst
      ↔ ∃ token ∈ s.recycle.queue, s.offsetOf token.1 = some off := by
  rw [List.mem_map]
  constructor
  · rintro ⟨token, htoken, hport⟩
    exact ⟨token, htoken, offsetOf_eq_some.2 ⟨hport, hoff⟩⟩
  · rintro ⟨token, htoken, hport⟩
    exact ⟨token, htoken, (offsetOf_eq_some.1 hport).1⟩

theorem give_pushed {s : AddressOccupancy} (hs : Inv s) {off : ℕ} (hoff : off < s.range) (nowNs : ℕ) :
    Pushed (s.portLow + off) off nowNs s.recycle (give s off nowNs).recycle := by
  refine pushAt_pushed hs.allocated nowNs ?_ ((hs.marked off hoff).trans (mem_ports_iff hoff).symm)
  rw [hs.nwords]
  omega

theorem inv_give {s : AddressOccupancy} (hs : Inv s) {off : ℕ} (hoff : off < s.range)
    (htaken : test s.words off = true) (nowNs : ℕ) : Inv (give s off nowNs) := by
  have hpushed := give_pushed hs hoff nowNs
  have hports : ∀ p, p ∈ (give s off nowNs).recycle.queue.map Prod.fst
      ↔ p = s.portLow + off ∨ p ∈ s.recycle.queue.map Prod.fst := by
    intro p
    have hpresent : s.portLow + off ∈ (give s off nowNs).recycle.queue.map Prod.fst := by
      obtain ⟨t, -, ht⟩ := hpushed.latest
      exact List.mem_map_of_mem (f := Prod.fst) ht
    rcases hpushed.ports with hsame | ⟨-, hmore⟩
    · rw [hsame] at hpresent ⊢
      constructor
      · exact .inr
      · rintro (rfl | h)
        · exact hpresent
        · exact h
    · rw [hmore, List.mem_append, List.mem_singleton, or_comm]
  refine ⟨hs.fits, ?_, ?_, ?_, ?_, hpushed.allocated, ?_, ?_, ?_⟩
  · exact (length_clear ..).trans hs.words
  · intro i hi
    simp only [give, test_clear, Bool.and_eq_true] at hi
    exact hs.bits i hi.2
  · simp only [give]
    rw [count_clear (word_lt hs hoff) htaken, hs.occupied]
  · exact hpushed.nwords.trans hs.nwords
  · intro token htoken
    rcases (hports token.1).1 (List.mem_map_of_mem htoken) with h | h
    · rw [h]
      exact Option.isSome_iff_exists.2 ⟨off, offsetOf_add (s := give s off nowNs) hoff⟩
    · obtain ⟨token', htoken', heq⟩ := List.mem_map.1 h
      rw [← heq]
      exact hs.inRange token' htoken'
  · rcases hpushed.ports with hsame | ⟨hnew, hmore⟩
    · rw [hsame]
      exact hs.nodup
    · rw [hmore]
      exact hs.nodup.append (List.nodup_singleton _) (List.disjoint_singleton.2 hnew)
  · intro j hj
    have hjs : j < s.range := hj
    rw [hpushed.queued j, ← mem_ports_iff (s := give s off nowNs) hj, hports, Bool.or_eq_true, decide_eq_true_eq,
      hs.marked j hjs, ← mem_ports_iff hjs]
    have hiff : (give s off nowNs).portLow + j = s.portLow + off ↔ j = off := Nat.add_left_cancel_iff
    rw [hiff]
    rfl

/-! ## One operation -/

/-- What an operation may hand out of a table. -/
def Op.Permits (s : AddressOccupancy) (off : ℕ) : Op → Prop
  | .claim _ _ excluded nowNs => excluded off = false ∧ heldBack s nowNs off = false
  | .claimInBlock startPort endPort => startPort ≤ s.portLow + off ∧ s.portLow + off ≤ endPort
  | .reserve port => port = s.portLow + off
  | .freeRecycleAt _ _ => False

/-- How an operation can end. -/
inductive StepEnd (s : AddressOccupancy) (op : Op) : Answer × AddressOccupancy → Prop where
  | took (off : ℕ) (hoff : off < s.range) (hfree : test s.words off = false) (hop : op.Permits s off) :
      StepEnd s op (.handedOut (s.portLow + off), take s off)
  | gave (off nowNs : ℕ) (hoff : off < s.range) (htaken : test s.words off = true)
      (hop : op = .freeRecycleAt (s.portLow + off) nowNs) :
      StepEnd s op (.freed (s.portLow + off), give s off nowNs)
  | kept (s' : AddressOccupancy) (hsame : Same s s') : StepEnd s op (.refused, s')

theorem step_end {s : AddressOccupancy} (hs : Inv s) (op : Op) : StepEnd s op (step s op) := by
  cases op with
  | claim key secret excluded nowNs =>
    have hclaim := claim_end key secret excluded nowNs hs
    unfold step
    dsimp only
    generalize s.claimSeededFilteredAt key secret excluded nowNs = result at hclaim
    cases hclaim with
    | found off hoff hexcluded hheld hfree => exact .took off hoff hfree ⟨hexcluded, hheld⟩
    | none s' hsame _ => exact .kept s' hsame
  | claimInBlock startPort endPort =>
    unfold step claimInBlock
    dsimp only
    cases hstart : s.offsetOf startPort with
    | none => exact .kept s (Same.refl s)
    | some start =>
      cases hstop : s.offsetOf endPort with
      | none => exact .kept s (Same.refl s)
      | some stop =>
        obtain ⟨rfl, -⟩ := offsetOf_eq_some.1 hstart
        obtain ⟨rfl, hlt⟩ := offsetOf_eq_some.1 hstop
        dsimp only
        by_cases horder : stop < start
        · rw [if_pos horder]
          exact .kept s (Same.refl s)
        rw [if_neg horder]
        have hwords : ∀ w ∈ List.range' (start / 64) (stop / 64 + 1 - start / 64), start / 64 ≤ w ∧ w ≤ stop / 64 := by
          intro w hw
          have := List.mem_range'_1.1 hw
          omega
        have hblock := claimWords_end hs hlt _ hwords
        generalize claimWords start stop s (List.range' (start / 64) (stop / 64 + 1 - start / 64)) = result at hblock
        cases hblock with
        | found off hge hle hfree => exact .took off (by omega) hfree ⟨by omega, by omega⟩
        | none => exact .kept s (Same.refl s)
  | reserve port =>
    cases hoffset : s.offsetOf port with
    | none =>
      simp only [step, reserve, hoffset]
      exact .kept s (Same.refl s)
    | some off =>
      simp only [step, reserve, hoffset]
      obtain ⟨rfl, hoff⟩ := offsetOf_eq_some.1 hoffset
      cases htest : test s.words off with
      | false =>
        rw [claimOffset_won htest]
        exact .took off hoff htest rfl
      | true =>
        rw [claimOffset_lost htest]
        exact .kept s (Same.refl s)
  | freeRecycleAt port nowNs =>
    cases hoffset : s.offsetOf port with
    | none =>
      simp only [step, freeRecycleAt, hoffset]
      exact .kept s (Same.refl s)
    | some off =>
      simp only [step, freeRecycleAt, hoffset]
      obtain ⟨rfl, hoff⟩ := offsetOf_eq_some.1 hoffset
      cases htest : test s.words off with
      | true =>
        simp only [freeOffset, htest, if_true, Bool.not_true, Bool.false_eq_true, if_false]
        exact .gave off nowNs hoff htest rfl
      | false =>
        simp only [freeOffset, htest, clear_eq_self htest, Bool.false_eq_true, if_false, Bool.not_false, if_true]
        exact .kept s (Same.refl s)

theorem inv_step {s : AddressOccupancy} (hs : Inv s) (op : Op) : Inv (step s op).2 := by
  have h := step_end hs op
  generalize step s op = result at h
  cases h with
  | took off hoff hfree _ => exact inv_take hs hoff hfree
  | gave off nowNs hoff htaken _ => exact inv_give hs hoff htaken nowNs
  | kept s' hsame => exact hsame.inv hs

theorem step_ports {s : AddressOccupancy} (hs : Inv s) (op : Op) :
    (step s op).2.portLow = s.portLow ∧ (step s op).2.range = s.range := by
  have h := step_end hs op
  generalize step s op = result at h
  cases h with
  | took off _ _ _ => exact ⟨rfl, rfl⟩
  | gave off nowNs _ _ _ => exact ⟨rfl, rfl⟩
  | kept s' hsame => exact ⟨hsame.portLow, hsame.range⟩

/-! ## Histories -/

section History

variable (portLow portHigh : UInt16)

theorem after_inv (ops : List Op) : Inv (after (ofPorts portLow portHigh) ops) :=
  run_invariant (inv_ofPorts portLow portHigh) (fun _ op h => inv_step h op) ops

theorem after_snoc (s : AddressOccupancy) (ops : List Op) (op : Op) :
    after s (ops ++ [op]) = (step (after s ops) op).2 := run_snoc ops op

theorem after_ports (ops : List Op) :
    (after (ofPorts portLow portHigh) ops).portLow = portLow.toNat
      ∧ (after (ofPorts portLow portHigh) ops).range = (ofPorts portLow portHigh).range := by
  induction ops using List.reverseRecOn with
  | nil => exact ⟨rfl, rfl⟩
  | append_singleton ops op ih =>
    rw [after_snoc]
    have := step_ports (after_inv portLow portHigh ops) op
    exact ⟨this.1.trans ih.1, this.2.trans ih.2⟩

/-- What the answers say about who holds what. -/
def Answer.record (held : Finset ℕ) : Answer → Finset ℕ
  | .handedOut port => insert port held
  | .freed port => held.erase port
  | .refused => held

/-- The ports that have been handed out and not freed since, by the answers alone. -/
def held (s : AddressOccupancy) (ops : List Op) : Finset ℕ :=
  (run (fun (st : AddressOccupancy × Finset ℕ) op => ((step st.1 op).2, (step st.1 op).1.record st.2)) (s, ∅) ops).2

/-- In the history a free of the port at a time took effect. -/
def Freed (s : AddressOccupancy) (ops : List Op) (port nowNs : ℕ) : Prop :=
  ∃ before later, ops = before ++ .freeRecycleAt port nowNs :: later
    ∧ (step (after s before) (.freeRecycleAt port nowNs)).1 = .freed port

theorem held_snoc (s : AddressOccupancy) (ops : List Op) (op : Op) :
    held s (ops ++ [op]) = (step (after s ops) op).1.record (held s ops) := by
  have hfirst : ∀ ops : List Op, (run (fun (st : AddressOccupancy × Finset ℕ) op =>
      ((step st.1 op).2, (step st.1 op).1.record st.2)) (s, ∅) ops).1 = after s ops := by
    intro ops
    induction ops using List.reverseRecOn with
    | nil => rfl
    | append_singleton ops op ih =>
      rw [run_snoc, after_snoc]
      dsimp only
      rw [ih]
  unfold held
  rw [run_snoc]
  dsimp only
  rw [hfirst]

/-- The bitmap shows exactly the ports that are held. -/
theorem mem_held_iff (ops : List Op) (port : ℕ) :
    port ∈ held (ofPorts portLow portHigh) ops
      ↔ ∃ off, (after (ofPorts portLow portHigh) ops).offsetOf port = some off
        ∧ (after (ofPorts portLow portHigh) ops).isOccupied off = true := by
  induction ops using List.reverseRecOn generalizing port with
  | nil =>
    refine iff_of_false (Finset.notMem_empty port) ?_
    rintro ⟨off, -, hocc⟩
    rw [show (after (ofPorts portLow portHigh) []).isOccupied off = false from test_zeros _ off] at hocc
    exact absurd hocc Bool.false_ne_true
  | append_singleton ops op ih =>
    have hs := after_inv portLow portHigh ops
    rw [held_snoc, after_snoc]
    generalize after (ofPorts portLow portHigh) ops = s at hs ih
    have hend := step_end hs op
    generalize step s op = result at hend
    cases hend with
    | took off hoff hfree _ =>
      simp only [Answer.record, Finset.mem_insert, ih, isOccupied, take, test_set (word_lt hs hoff), Bool.or_eq_true,
        decide_eq_true_eq]
      constructor
      · rintro (rfl | ⟨o, ho, hocc⟩)
        · exact ⟨off, offsetOf_add hoff, .inl rfl⟩
        · exact ⟨o, ho, .inr hocc⟩
      · rintro ⟨o, ho, rfl | hocc⟩
        · exact .inl (offsetOf_eq_some.1 ho).1
        · exact .inr ⟨o, ho, hocc⟩
    | gave off nowNs hoff htaken _ =>
      simp only [Answer.record, Finset.mem_erase, ih, isOccupied, give, test_clear, Bool.and_eq_true,
        decide_eq_true_eq]
      constructor
      · rintro ⟨hne, o, ho, hocc⟩
        refine ⟨o, ho, ?_, hocc⟩
        rintro rfl
        exact hne (offsetOf_eq_some.1 ho).1
      · rintro ⟨o, ho, hne, hocc⟩
        refine ⟨?_, o, ho, hocc⟩
        have hport : port = s.portLow + o := (offsetOf_eq_some.1 ho).1
        omega
    | kept s' hsame =>
      simp only [Answer.record, ih, isOccupied, hsame.words, hsame.toWalked.offsetOf]

/-! ### Tokens and frees -/

theorem Freed.snoc {s : AddressOccupancy} {ops : List Op} {port t : ℕ} (h : Freed s ops port t) (op : Op) :
    Freed s (ops ++ [op]) port t := by
  obtain ⟨before, later, rfl, hfreed⟩ := h
  exact ⟨before, later ++ [op], by simp, hfreed⟩

theorem freed_snoc_cases {s : AddressOccupancy} {ops : List Op} {op : Op} {port t : ℕ}
    (h : Freed s (ops ++ [op]) port t) :
    Freed s ops port t ∨ (op = .freeRecycleAt port t ∧ (step (after s ops) op).1 = .freed port) := by
  obtain ⟨before, later, heq, hfreed⟩ := h
  induction later using List.reverseRecOn with
  | nil =>
    obtain ⟨rfl, hop⟩ := List.append_inj' heq rfl
    obtain rfl := List.singleton_inj.1 hop
    exact .inr ⟨rfl, hfreed⟩
  | append_singleton later last _ =>
    rw [← List.cons_append, ← List.append_assoc] at heq
    obtain ⟨rfl, -⟩ := List.append_inj' heq rfl
    exact .inl ⟨before, later, rfl, hfreed⟩

/-- The time of a token is the time of a free. -/
theorem freed_of_token (ops : List Op) {port t : ℕ}
    (h : (port, t) ∈ (after (ofPorts portLow portHigh) ops).recycle.queue) :
    Freed (ofPorts portLow portHigh) ops port t := by
  induction ops using List.reverseRecOn generalizing port t with
  | nil => exact absurd h List.not_mem_nil
  | append_singleton ops op ih =>
    have hs := after_inv portLow portHigh ops
    have hend := step_end hs op
    have hnow : (step (after (ofPorts portLow portHigh) ops) op).1 = .freed port → op = .freeRecycleAt port t →
        Freed (ofPorts portLow portHigh) (ops ++ [op]) port t := by
      rintro hanswer rfl
      exact ⟨ops, [], rfl, hanswer⟩
    rw [after_snoc] at h
    generalize step (after (ofPorts portLow portHigh) ops) op = result at hend h hnow
    cases hend with
    | took off _ _ _ => exact (ih h).snoc op
    | gave off nowNs hoff _ hop =>
      rcases (give_pushed hs hoff nowNs).known port t h with hold | ⟨rfl, rfl⟩
      · exact (ih hold).snoc op
      · exact hnow rfl hop
    | kept s' hsame => exact (ih (hsame.queue ▸ h)).snoc op

/-- A free leaves a token that is as late, and it stays. -/
theorem token_of_freed (ops : List Op) {port t : ℕ} (h : Freed (ofPorts portLow portHigh) ops port t) :
    ∃ t', t ≤ t' ∧ (port, t') ∈ (after (ofPorts portLow portHigh) ops).recycle.queue := by
  induction ops using List.reverseRecOn generalizing port t with
  | nil =>
    obtain ⟨before, later, heq, -⟩ := h
    exact absurd heq.symm (by simp)
  | append_singleton ops op ih =>
    have hs := after_inv portLow portHigh ops
    have hend := step_end hs op
    have hcases := freed_snoc_cases h
    rw [after_snoc]
    generalize step (after (ofPorts portLow portHigh) ops) op = result at hend hcases
    cases hend with
    | took off _ _ _ =>
      rcases hcases with hold | ⟨-, hanswer⟩
      · exact ih hold
      · exact absurd hanswer (by simp)
    | gave off nowNs hoff _ hop =>
      have hpushed := give_pushed hs hoff nowNs
      rcases hcases with hold | ⟨hop', -⟩
      · obtain ⟨t₁, hle, hmem⟩ := ih hold
        obtain ⟨t₂, hle', hmem'⟩ := hpushed.kept port t₁ hmem
        exact ⟨t₂, hle.trans hle', hmem'⟩
      · obtain ⟨rfl, rfl⟩ := Op.freeRecycleAt.inj (hop'.symm.trans hop)
        exact hpushed.latest
    | kept s' hsame =>
      rcases hcases with hold | ⟨-, hanswer⟩
      · obtain ⟨t', hle, hmem⟩ := ih hold
        exact ⟨t', hle, hsame.queue ▸ hmem⟩
      · exact absurd hanswer (by simp)

/-- The one token of a port has the latest of its times. -/
theorem isGreatest_of_token (ops : List Op) {port t : ℕ}
    (h : (port, t) ∈ (after (ofPorts portLow portHigh) ops).recycle.queue) :
    IsGreatest {t | Freed (ofPorts portLow portHigh) ops port t} t := by
  refine ⟨freed_of_token portLow portHigh ops h, ?_⟩
  intro t₁ ht₁
  obtain ⟨t₂, hle, hmem⟩ := token_of_freed portLow portHigh ops ht₁
  have := token_eq (after_inv portLow portHigh ops) hmem h rfl
  rw [← (Prod.mk.inj this).2]
  exact hle

theorem quarantined_iff {range freedAtNs nowNs : ℕ} :
    quarantined range freedAtNs nowNs = true
      ↔ freedAtNs ≠ 0 ∧ range ≤ smallPoolQuarantineMaxRange ∧ nowNs < freedAtNs + patPortQuarantineNs := by
  have hlt : nowNs - freedAtNs < patPortQuarantineNs ↔ nowNs < freedAtNs + patPortQuarantineNs := by
    unfold patPortQuarantineNs
    omega
  simp only [quarantined, Bool.and_eq_true, decide_eq_true_eq, hlt, and_assoc]

/-! ### The table as a whole -/

/-- The port is one the operation has asked for. -/
def Op.Asks (port : ℕ) : Op → Prop
  | .claimInBlock startPort endPort => startPort ≤ port ∧ port ≤ endPort
  | .reserve p => port = p
  | _ => True

theorem handedOut_range (ops : List Op) (op : Op) (port : ℕ)
    (h : (step (after (ofPorts portLow portHigh) ops) op).1 = .handedOut port) :
    port ∉ held (ofPorts portLow portHigh) ops ∧ portLow.toNat ≤ port ∧ port ≤ portHigh.toNat ∧ op.Asks port := by
  have hs := after_inv portLow portHigh ops
  have hports := after_ports portLow portHigh ops
  have hend := step_end hs op
  generalize step (after (ofPorts portLow portHigh) ops) op = result at hend h
  cases hend with
  | took off hoff hfree hop =>
    obtain rfl := Answer.handedOut.inj h
    refine ⟨?_, by omega, ?_, ?_⟩
    · rw [mem_held_iff]
      rintro ⟨o, ho, hocc⟩
      have : o = off := by
        have := (offsetOf_eq_some.1 ho).1
        omega
      rw [this, isOccupied, hfree] at hocc
      exact absurd hocc Bool.false_ne_true
    · rw [hports.2] at hoff
      simp only [ofPorts, new] at hoff
      split_ifs at hoff with hempty
      · omega
      · simp only [Bool.or_eq_true, decide_eq_true_eq, not_or, UInt16.lt_iff_toNat_lt] at hempty
        omega
    · cases op with
      | claimInBlock startPort endPort => exact hop
      | reserve p => exact hop.symm
      | claim key secret excluded nowNs => trivial
      | freeRecycleAt p nowNs => trivial
  | gave off nowNs _ _ _ => exact absurd h (by simp)
  | kept s' _ => exact absurd h (by simp)

end History

end Xpf.PortOccupancy
