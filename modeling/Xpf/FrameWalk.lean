/-
What the IPv6 extension-header walk depends on.

A walk that reaches an L4 header has read the next-header byte of the IPv6 header and the
extension headers in front of it, and nothing else. So a packet whose addresses or L4 fields
were rewritten is walked to the same place, and a packet behind an Ethernet header to the
same place behind it (`walkIpv6ExtChain_shift`).
-/
import Xpf.FrameInspect

set_option autoImplicit false

namespace Xpf.Frames

open Xpf.ByteBuffer

section

variable {buf buf' : Bytes} {s : ℕ}

/-- A range that is the same in both buffers. -/
theorem getRange_shift {off n : ℕ} {r : Bytes} (h : getRange buf off n = some r)
    (hlen : buf'.length = buf.length + s)
    (hag : ∀ i, off ≤ i → i < off + n → byteAt buf' (i + s) = byteAt buf i) :
    getRange buf' (off + s) n = some r := by
  obtain ⟨hle, rfl⟩ := getRange_eq_some h
  rw [getRange_of_le (by omega), Option.some_inj]
  apply ext
  · rw [length_sub (by omega), length_sub hle]
  · intro j hj
    rw [length_sub (by omega)] at hj
    rw [byteAt_sub _ _ hj, byteAt_sub _ _ hj, ← hag (off + j) (by omega) (by omega)]
    congr 1
    omega

/-- The two flags of a walk that the rewrites read. -/
def SameFlags (a b : Sightings) : Prop :=
  a.ahPresent = b.ahPresent ∧ a.nonFirstFragmentOffsetSeen = b.nonFirstFragmentOffsetSeen

theorem recordFragmentSighting_flags {off off' : ℕ} {seen seen' : Sightings}
    (hget : getRange buf' off' 8 = getRange buf off 8) (h : SameFlags seen' seen) :
    (recordFragmentSighting buf' off' seen').1 = (recordFragmentSighting buf off seen).1
      ∧ SameFlags (recordFragmentSighting buf' off' seen').2
          (recordFragmentSighting buf off seen).2 := by
  unfold recordFragmentSighting
  dsimp only
  rw [hget]
  obtain ⟨hah, hnf⟩ := h
  cases getRange buf off 8 with
  | none =>
    refine ⟨rfl, ?_⟩
    dsimp only
    split_ifs <;> exact ⟨hah, hnf⟩
  | some f =>
    dsimp only
    by_cases hf : get16 f 2 &&& 0xFFF8 ≠ 0
    · rw [if_pos hf, if_pos hf]
      refine ⟨rfl, ?_⟩
      split_ifs <;> exact ⟨hah, rfl⟩
    · rw [if_neg hf, if_neg hf]
      refine ⟨rfl, ?_⟩
      split_ifs <;> exact ⟨hah, hnf⟩

/-- A round that goes on goes on behind at least eight bytes, which it has read. -/
theorem extHeaderStep_shift {last : Bool} {p p' : UInt8} {off off' : ℕ} {seen seen' seen2 : Sightings}
    (h : extHeaderStep buf last p off seen = .inl (p', off', seen'))
    (hlen : buf'.length = buf.length + s)
    (hag : ∀ i, off ≤ i → i < off' → byteAt buf' (i + s) = byteAt buf i)
    (hflags : SameFlags seen2 seen) :
    ∃ seen2', extHeaderStep buf' last p (off + s) seen2 = .inl (p', off' + s, seen2')
      ∧ SameFlags seen2' seen' := by
  unfold extHeaderStep at h ⊢
  by_cases hlast : (last && ipv6ExtHeaderIsTraversable p) = true
  · rw [if_pos hlast] at h
    split_ifs at h
  rw [if_neg hlast] at h ⊢
  by_cases hgen : IPV6_GENERIC_EXT_HEADERS.contains p = true
  · rw [if_pos hgen] at h ⊢
    cases hget : getRange buf off 2 with
    | none =>
      rw [hget] at h
      cases h
    | some opt =>
      rw [hget] at h
      dsimp only at h
      by_cases h43 : p = 43 ∧ (getRange buf off 4).isNone = true
      · rw [if_pos h43] at h
        cases h
      rw [if_neg h43] at h
      by_cases hnext : buf.length < off + ((byteAt opt 1).toNat + 1) * 8
      · rw [if_pos hnext] at h
        cases h
      rw [if_neg hnext] at h
      obtain ⟨rfl, rfl, rfl⟩ : byteAt opt 0 = p' ∧ off + ((byteAt opt 1).toNat + 1) * 8 = off'
          ∧ seen = seen' := by
        simpa only [Sum.inl.injEq, Prod.mk.injEq] using h
      rw [getRange_shift hget hlen fun i h1 h2 => hag i h1 (by omega)]
      dsimp only
      have hfour : ¬(p = 43 ∧ (getRange buf' (off + s) 4).isNone = true) := by
        rw [getRange_of_le (by omega)]
        simp
      rw [if_neg hfour, if_neg (by omega)]
      refine ⟨seen2, ?_, hflags⟩
      congr 3
      omega
  rw [if_neg hgen] at h ⊢
  by_cases h51 : p = 51
  · rw [if_pos h51] at h ⊢
    cases hget : getRange buf off 2 with
    | none =>
      rw [hget] at h
      cases h
    | some opt =>
      rw [hget] at h
      dsimp only at h
      by_cases hnext : buf.length < off + ((byteAt opt 1).toNat + 2) * 4
      · rw [if_pos hnext] at h
        cases h
      rw [if_neg hnext] at h
      obtain ⟨rfl, rfl, rfl⟩ : byteAt opt 0 = p' ∧ off + ((byteAt opt 1).toNat + 2) * 4 = off'
          ∧ { seen with ahPresent := true } = seen' := by
        simpa only [Sum.inl.injEq, Prod.mk.injEq] using h
      rw [getRange_shift hget hlen fun i h1 h2 => hag i h1 (by omega)]
      dsimp only
      rw [if_neg (by omega)]
      refine ⟨{ seen2 with ahPresent := true }, ?_, rfl, hflags.2⟩
      congr 3
      omega
  rw [if_neg h51] at h ⊢
  by_cases h44 : p = 44
  · rw [if_pos h44] at h ⊢
    rcases hrec : recordFragmentSighting buf off seen with ⟨frag, seen1⟩
    rw [hrec] at h
    have hfrag : frag = getRange buf off 8 := by
      have hfst : (recordFragmentSighting buf off seen).1 = getRange buf off 8 := by
        unfold recordFragmentSighting
        dsimp only
        split
        · split_ifs <;> rfl
        · rfl
      rw [← hfst, hrec]
    cases frag with
    | none => cases h
    | some frag =>
      dsimp only at h
      by_cases hnext : buf.length < off + 8
      · rw [if_pos hnext] at h
        cases h
      rw [if_neg hnext] at h
      by_cases hnf : seen1.nonFirstFragmentOffsetSeen = true
      · rw [if_pos hnf] at h
        cases h
      rw [if_neg hnf] at h
      obtain ⟨rfl, rfl, rfl⟩ : byteAt frag 0 = p' ∧ off + 8 = off' ∧ seen1 = seen' := by
        simpa only [Sum.inl.injEq, Prod.mk.injEq] using h
      have hget := getRange_shift hfrag.symm hlen fun i h1 h2 => hag i h1 h2
      obtain ⟨h1, h2⟩ := recordFragmentSighting_flags (hget.trans hfrag) hflags
      rw [hrec] at h1 h2
      rcases hrec' : recordFragmentSighting buf' (off + s) seen2 with ⟨frag', seen1'⟩
      rw [hrec'] at h1 h2
      dsimp only at h1 h2
      rw [h1]
      dsimp only
      rw [if_neg (by omega), if_neg (by rw [h2.2]; exact hnf)]
      refine ⟨seen1', ?_, h2⟩
      congr 3
      omega
  rw [if_neg h44] at h
  split_ifs at h

/-- A round that ends at an L4 header has read nothing. -/
theorem extHeaderStep_l4 {last : Bool} {p : UInt8} {off : ℕ} {seen : Sightings}
    {walk : ExtChainWalk} (h : extHeaderStep buf last p off seen = .inr walk) {l4 : ℕ} {proto : UInt8}
    (hl4 : walk.outcome = .l4 l4 proto) :
    l4 = off ∧ proto = p ∧ walk.toSightings = seen ∧ ∀ buf' off' seen',
      extHeaderStep buf' last p off' seen' = .inr ⟨seen', .l4 off' p⟩ := by
  unfold extHeaderStep at h ⊢
  by_cases hlast : (last && ipv6ExtHeaderIsTraversable p) = true
  · rw [if_pos hlast] at h
    split_ifs at h <;> obtain rfl := Sum.inr.inj h <;> cases hl4
  by_cases hgen : IPV6_GENERIC_EXT_HEADERS.contains p = true
  · rw [if_neg hlast, if_pos hgen] at h
    split at h
    · obtain rfl := Sum.inr.inj h
      cases hl4
    · dsimp only at h
      split_ifs at h <;> obtain rfl := Sum.inr.inj h <;> cases hl4
  by_cases h51 : p = 51
  · rw [if_neg hlast, if_neg hgen, if_pos h51] at h
    split at h
    · obtain rfl := Sum.inr.inj h
      cases hl4
    · dsimp only at h
      split_ifs at h
      obtain rfl := Sum.inr.inj h
      cases hl4
  by_cases h44 : p = 44
  · rw [if_neg hlast, if_neg hgen, if_neg h51, if_pos h44] at h
    split at h
    · obtain rfl := Sum.inr.inj h
      cases hl4
    · split_ifs at h <;> obtain rfl := Sum.inr.inj h <;> cases hl4
  by_cases h59 : p = 59
  · rw [if_neg hlast, if_neg hgen, if_neg h51, if_neg h44, if_pos h59] at h
    obtain rfl := Sum.inr.inj h
    cases hl4
  rw [if_neg hlast, if_neg hgen, if_neg h51, if_neg h44, if_neg h59] at h
  obtain rfl := Sum.inr.inj h
  cases hl4
  refine ⟨rfl, rfl, rfl, fun buf' off' seen' => ?_⟩
  rw [if_neg hlast, if_neg hgen, if_neg h51, if_neg h44, if_neg h59]

/-- **The walk of the part that agrees**, up to the L4 header. -/
theorem walkExtHeaders_shift (n : ℕ) : ∀ {p : UInt8} {off : ℕ} {seen seen2 : Sightings} {l4 : ℕ}
    {proto : UInt8}, (walkExtHeaders buf n p off seen).outcome = .l4 l4 proto →
    buf'.length = buf.length + s →
    (∀ i, off ≤ i → i < l4 → byteAt buf' (i + s) = byteAt buf i) → SameFlags seen2 seen →
    (walkExtHeaders buf' n p (off + s) seen2).outcome = .l4 (l4 + s) proto
      ∧ SameFlags (walkExtHeaders buf' n p (off + s) seen2).toSightings
          (walkExtHeaders buf n p off seen).toSightings := by
  induction n with
  | zero =>
    intro p off seen seen2 l4 proto h
    cases h
  | succ n ih =>
    intro p off seen seen2 l4 proto h hlen hag hflags
    cases hs : extHeaderStep buf (n == 0) p off seen with
    | inl next =>
      obtain ⟨p', off', seen'⟩ := next
      rw [walkExtHeaders, hs] at h
      have hle : off' ≤ l4 := walkExtHeaders_offset_le _ _ _ _ _ h
      have hge : off ≤ off' := by
        rcases extHeaderStep_offset buf (n == 0) p off seen with
          ⟨q, o, t, hs', hle'⟩ | ⟨w, hs', -⟩
        · obtain ⟨-, rfl, -⟩ : p' = q ∧ off' = o ∧ seen' = t := by
            simpa only [Sum.inl.injEq, Prod.mk.injEq] using hs.symm.trans hs'
          exact hle'
        · cases hs.symm.trans hs'
      obtain ⟨seen2', hs2, hflags'⟩ := extHeaderStep_shift hs hlen
        (fun i h1 h2 => hag i h1 (by omega)) hflags
      rw [walkExtHeaders, hs2, walkExtHeaders, hs]
      exact ih h hlen (fun i h1 h2 => hag i (by omega) h2) hflags'
    | inr walk =>
      rw [walkExtHeaders, hs] at h
      obtain ⟨rfl, rfl, hseen, hall⟩ := extHeaderStep_l4 hs h
      rw [walkExtHeaders, hall, walkExtHeaders, hs]
      refine ⟨rfl, ?_⟩
      rw [hseen]
      exact hflags

/-- The walk of a packet that agrees in its next-header byte and its extension headers, in a
buffer where it starts `s` bytes later. -/
theorem walkIpv6ExtChain_shift {l3 l4 : ℕ} {proto : UInt8}
    (h : (walkIpv6ExtChain buf l3).outcome = .l4 l4 proto) (hlen : buf'.length = buf.length + s)
    (hnext : byteAt buf' (l3 + 6 + s) = byteAt buf (l3 + 6))
    (hag : ∀ i, l3 + 40 ≤ i → i < l4 → byteAt buf' (i + s) = byteAt buf i) :
    (walkIpv6ExtChain buf' (l3 + s)).outcome = .l4 (l4 + s) proto
      ∧ SameFlags (walkIpv6ExtChain buf' (l3 + s)).toSightings
          (walkIpv6ExtChain buf l3).toSightings := by
  unfold walkIpv6ExtChain at h ⊢
  by_cases hshort : buf.length < l3 + 40
  · rw [if_pos hshort] at h
    cases h
  rw [if_neg hshort] at h ⊢
  have hpos : l3 + s + 6 = l3 + 6 + s := by omega
  have hoff : l3 + s + 40 = l3 + 40 + s := by omega
  rw [if_neg (by omega), hpos, hoff, hnext]
  exact walkExtHeaders_shift MAX_IPV6_EXT_HEADERS h hlen hag ⟨rfl, rfl⟩

end

end Xpf.Frames
