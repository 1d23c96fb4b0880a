/-
What the NAT64 translators read of a packet before they write: `userspace-dp/src/nat64/
translate.rs` over the walk of `afxdp/frame/inspect.rs`.

The walk records more about Fragment headers than the forwarding path reads. The headers it
sights are listed here in order (`fragmentsSighted`), and what the walk keeps of them is read
off the list: the first, the first that is not atomic, whether one could not be read and
whether one had an offset. Two of these four are fields of the walk already, and
`walk_fragment` and `walk_nonFirst` say that the list agrees with them.
-/
import Xpf.FrameForwarded

set_option autoImplicit false

namespace Xpf.Nat64

open Xpf.ByteBuffer Xpf.Frames

/-! ## The Fragment headers of a chain -/

/-- The Fragment headers the walk sights, in order. -/
def fragmentsSighted (buf : Bytes) : ℕ → UInt8 → ℕ → Sightings → List ExtChainFragment
  | 0, _, _, _ => []
  | n + 1, protocol, offset, seen =>
    (if protocol = 44 then [⟨getRange buf offset 8, offset⟩] else [])
      ++ match extHeaderStep buf (n == 0) protocol offset seen with
        | .inl (protocol, offset, seen) => fragmentsSighted buf n protocol offset seen
        | .inr _ => []

/-- The Fragment headers of a packet. -/
def chainFragments (packet : Bytes) : List ExtChainFragment :=
  if packet.length < 40 then []
  else
    fragmentsSighted packet MAX_IPV6_EXT_HEADERS (byteAt packet 6) 40 ⟨none, false, false⟩

/-- A readable header whose offset or whose M flag is not zero. -/
def ExtChainFragment.nonAtomic (f : ExtChainFragment) : Bool :=
  f.bytes.any fun bytes => get16 bytes 2 &&& 0xFFF9 ≠ 0

/-- A readable header whose offset is not zero. -/
def ExtChainFragment.nonFirst (f : ExtChainFragment) : Bool :=
  f.bytes.any fun bytes => get16 bytes 2 &&& 0xFFF8 ≠ 0

/-- `ExtChainWalk::first_non_atomic_fragment`. -/
def firstNonAtomicFragment (packet : Bytes) : Option ExtChainFragment :=
  (chainFragments packet).find? ExtChainFragment.nonAtomic

/-- `ExtChainWalk::fragment_truncated`. -/
def fragmentTruncated (packet : Bytes) : Bool := (chainFragments packet).any fun f => f.bytes.isNone

/-! ## The list and the walk -/

/-- What one round of the walk does to the two fields it shares with the list. -/
theorem extHeaderStep_sightings (buf : Bytes) (last : Bool) (protocol : UInt8) (offset : ℕ)
    (seen : Sightings) :
    let seen' := Sum.elim (fun r => r.2.2) (fun w => w.toSightings)
      (extHeaderStep buf last protocol offset seen)
    seen'.fragment = (if protocol = 44 then (recordFragmentSighting buf offset seen).2.fragment
        else seen.fragment)
      ∧ seen'.nonFirstFragmentOffsetSeen = (if protocol = 44 then
          (recordFragmentSighting buf offset seen).2.nonFirstFragmentOffsetSeen
        else seen.nonFirstFragmentOffsetSeen) := by
  dsimp only
  unfold extHeaderStep
  by_cases hlast : (last && ipv6ExtHeaderIsTraversable protocol) = true
  · rw [if_pos hlast]
    by_cases h44 : protocol = 44
    · rw [if_pos h44, if_pos h44, if_pos h44]
      exact ⟨rfl, rfl⟩
    · rw [if_neg h44, if_neg h44, if_neg h44]
      exact ⟨rfl, rfl⟩
  rw [if_neg hlast]
  by_cases hgen : IPV6_GENERIC_EXT_HEADERS.contains protocol = true
  · have h44 : protocol ≠ 44 := by
      rintro rfl
      exact absurd hgen (by decide)
    rw [if_pos hgen, if_neg h44, if_neg h44]
    split
    · exact ⟨rfl, rfl⟩
    · dsimp only
      split_ifs <;> exact ⟨rfl, rfl⟩
  rw [if_neg hgen]
  by_cases h51 : protocol = 51
  · have h44 : protocol ≠ 44 := by
      rw [h51]
      decide
    rw [if_pos h51, if_neg h44, if_neg h44]
    split
    · exact ⟨rfl, rfl⟩
    · dsimp only
      split_ifs <;> exact ⟨rfl, rfl⟩
  rw [if_neg h51]
  by_cases h44 : protocol = 44
  · rw [if_pos h44, if_pos h44, if_pos h44]
    split
    next seen' hrec =>
      rw [hrec]
      exact ⟨rfl, rfl⟩
    next frag seen' hrec =>
      rw [hrec]
      split_ifs <;> exact ⟨rfl, rfl⟩
  · rw [if_neg h44, if_neg h44, if_neg h44]
    split_ifs <;> exact ⟨rfl, rfl⟩

theorem recordFragmentSighting_fragment (buf : Bytes) (offset : ℕ) (seen : Sightings) :
    (recordFragmentSighting buf offset seen).2.fragment
      = seen.fragment.or (some ⟨getRange buf offset 8, offset⟩) := by
  unfold recordFragmentSighting
  dsimp only
  cases hseen : seen.fragment with
  | none =>
    rw [Option.isNone_none, if_pos rfl]
    split
    · split_ifs <;> rfl
    · rfl
  | some f =>
    rw [Option.isNone_some, if_neg Bool.false_ne_true]
    split
    · split_ifs <;> exact hseen
    · exact hseen

theorem recordFragmentSighting_nonFirst (buf : Bytes) (offset : ℕ) (seen : Sightings) :
    (recordFragmentSighting buf offset seen).2.nonFirstFragmentOffsetSeen
      = (seen.nonFirstFragmentOffsetSeen
        || ExtChainFragment.nonFirst ⟨getRange buf offset 8, offset⟩) := by
  have hkeep : ∀ s : Sightings, (if s.fragment.isNone
      then { s with fragment := some ⟨getRange buf offset 8, offset⟩ } else s).nonFirstFragmentOffsetSeen
      = s.nonFirstFragmentOffsetSeen := by
    intro s
    split_ifs <;> rfl
  unfold recordFragmentSighting
  dsimp only
  cases hrange : getRange buf offset 8 with
  | none =>
    rw [hrange] at hkeep
    dsimp only
    rw [hkeep, ExtChainFragment.nonFirst, Option.any_none, Bool.or_false]
  | some bytes =>
    rw [hrange] at hkeep
    dsimp only
    rw [ExtChainFragment.nonFirst, Option.any_some]
    by_cases hoff : get16 bytes 2 &&& 0xFFF8 ≠ 0
    · rw [if_pos hoff, decide_eq_true hoff, Bool.or_true]
    · rw [if_neg hoff, decide_eq_false hoff, Bool.or_false]
      exact hkeep seen

/-- **The walk keeps of the headers what the list has**: the induction is on the rounds that
are left. -/
theorem walkExtHeaders_sightings (buf : Bytes) (n : ℕ) :
    ∀ (protocol : UInt8) (offset : ℕ) (seen : Sightings),
      (walkExtHeaders buf n protocol offset seen).fragment
          = seen.fragment.or (fragmentsSighted buf n protocol offset seen).head?
        ∧ (walkExtHeaders buf n protocol offset seen).nonFirstFragmentOffsetSeen
          = (seen.nonFirstFragmentOffsetSeen
            || (fragmentsSighted buf n protocol offset seen).any ExtChainFragment.nonFirst) := by
  induction n with
  | zero =>
    intro protocol offset seen
    rw [walkExtHeaders, fragmentsSighted, List.head?_nil, Option.or_none, List.any_nil,
      Bool.or_false]
    exact ⟨rfl, rfl⟩
  | succ n ih =>
    intro protocol offset seen
    obtain ⟨hfrag, hfirst⟩ := extHeaderStep_sightings buf (n == 0) protocol offset seen
    rw [recordFragmentSighting_fragment] at hfrag
    rw [recordFragmentSighting_nonFirst] at hfirst
    rw [walkExtHeaders, fragmentsSighted]
    cases hstep : extHeaderStep buf (n == 0) protocol offset seen with
    | inl r =>
      obtain ⟨protocol', offset', seen'⟩ := r
      rw [hstep] at hfrag hfirst
      obtain ⟨ih1, ih2⟩ := ih protocol' offset' seen'
      dsimp only [Sum.elim_inl] at hfrag hfirst ⊢
      rw [ih1, ih2, hfrag, hfirst]
      by_cases h44 : protocol = 44
      · simp only [h44, if_true, List.singleton_append, List.head?_cons, List.any_cons,
          Option.or_assoc, Option.some_or, Bool.or_assoc, and_self]
      · simp only [h44, if_false, List.nil_append, and_self]
    | inr w =>
      rw [hstep] at hfrag hfirst
      dsimp only [Sum.elim_inr] at hfrag hfirst ⊢
      rw [hfrag, hfirst]
      by_cases h44 : protocol = 44
      · simp only [h44, if_true, List.append_nil, List.head?_cons, List.any_cons, List.any_nil,
          Bool.or_false, and_self]
      · simp only [h44, if_false, List.append_nil, List.head?_nil, List.any_nil, Bool.or_false,
          Option.or_none, and_self]

theorem walk_fragment (packet : Bytes) :
    (walkIpv6ExtChain packet 0).fragment = (chainFragments packet).head? := by
  rw [walkIpv6ExtChain, chainFragments, Nat.zero_add, Nat.zero_add]
  by_cases h : packet.length < 40
  · rw [if_pos h, if_pos h]
    rfl
  · rw [if_neg h, if_neg h, (walkExtHeaders_sightings _ _ _ _ _).1]
    rfl

theorem walk_nonFirst (packet : Bytes) :
    ipv6IsNonFirstFragment packet = (chainFragments packet).any ExtChainFragment.nonFirst := by
  rw [ipv6IsNonFirstFragment, walkIpv6ExtChain, chainFragments, Nat.zero_add, Nat.zero_add]
  by_cases h : packet.length < 40
  · rw [if_pos h, if_pos h]
    rfl
  · rw [if_neg h, if_neg h, (walkExtHeaders_sightings _ _ _ _ _).2]
    rfl

/-! ## What the translators read -/

/-- `ipv6_l4_offset_and_protocol`: for a later fragment, the first byte behind its Fragment
header and the protocol that header names. -/
def ipv6L4OffsetAndProtocol (packet : Bytes) : Option (ℕ × UInt8) :=
  let walk := walkIpv6ExtChain packet 0
  match walk.outcome with
  | .l4 offset protocol => some (offset, protocol)
  | .nonFirstFragment =>
    match walk.fragment with
    | some ⟨some bytes, headerOffset⟩ =>
      if walk.nonFirstFragmentOffsetSeen then some (headerOffset + 8, byteAt bytes 0) else none
    | _ => none
  | _ => none

/-- The loop of `nat64_v6_translation_ineligible`, with the rounds that are left. -/
def ineligibleChain (packet : Bytes) : ℕ → UInt8 → ℕ → Bool
  | 0, _, _ => false
  | n + 1, protocol, offset =>
    -- AH, Mobility, HIP and Shim6 have no IPv4 counterpart
    if [51, 135, 139, 140].contains protocol then true
    else if protocol = 43 then
      match getRange packet offset 4 with
      | none => false
      | some hdr =>
        -- a source route that is still active
        if 0 < byteAt hdr 3 then true
        else
          let next := offset + ((byteAt hdr 1).toNat + 1) * 8
          if packet.length < next then false else ineligibleChain packet n (byteAt hdr 0) next
    else if [0, 60, 253, 254].contains protocol then
      match getRange packet offset 2 with
      | none => false
      | some hdr =>
        let next := offset + ((byteAt hdr 1).toNat + 1) * 8
        if packet.length < next then false else ineligibleChain packet n (byteAt hdr 0) next
    else if protocol = 44 then
      match getRange packet offset 8 with
      | none => false
      | some frag =>
        -- extension headers of the fragmentable part cannot be taken out of it
        if ipv6ExtHeaderIsTraversable (byteAt frag 0) then true
        else if packet.length < offset + 8 then false
        else ineligibleChain packet n (byteAt frag 0) (offset + 8)
    else false

/-- `nat64_v6_translation_ineligible`. -/
def nat64V6TranslationIneligible (packet : Bytes) : Bool :=
  if packet.length < 40 then false
  else ineligibleChain packet MAX_IPV6_EXT_HEADERS (byteAt packet 6) 40

/-- `Ipv6FragInfo`. -/
structure Ipv6FragInfo where
  offsetUnits : UInt16
  more : Bool
  ident : UInt32
  nextHeader : UInt8
deriving DecidableEq

/-- The fields of a Fragment header. -/
def Ipv6FragInfo.ofBytes (bytes : Bytes) : Ipv6FragInfo where
  offsetUnits := get16 bytes 2 >>> 3
  more := get16 bytes 2 &&& 0x0001 ≠ 0
  ident := (get16 bytes 4).toUInt32 <<< 16 ||| (get16 bytes 6).toUInt32
  nextHeader := byteAt bytes 0

/-- `ipv6_fragment_header`: the first header that is not atomic, else the first. -/
def ipv6FragmentHeader (packet : Bytes) : Option Ipv6FragInfo := do
  if fragmentTruncated packet then none
  else
    let fragment ← (firstNonAtomicFragment packet).or (walkIpv6ExtChain packet 0).fragment
    let bytes ← fragment.bytes
    some (Ipv6FragInfo.ofBytes bytes)

/-- A fragment that is not the whole datagram. -/
def Ipv6FragInfo.real (info : Ipv6FragInfo) : Bool := info.more || info.offsetUnits ≠ 0

/-- The first fragment of a datagram that has more. -/
def Ipv6FragInfo.leading (info : Ipv6FragInfo) : Bool := info.more && info.offsetUnits = 0

/-- `v6_to_v4_is_fragment_drop`. -/
def v6ToV4IsFragmentDrop (packet : Bytes) : Bool :=
  if ipv6IsNonFirstFragment packet then true
  else
    match ipv6FragmentHeader packet with
    | none => false
    | some info =>
      if info.offsetUnits ≠ 0 then true
      else if !info.more then false
      else
        match ipv6L4OffsetAndProtocol packet with
        | none => false
        | some (l4Offset, protocol) =>
          protocol = PROTO_ICMPV6
            || (protocol = PROTO_UDP && getRange packet (l4Offset + 6) 2 = some [0, 0])

/-- `v4_to_v6_is_fragment_drop`. -/
def v4ToV6IsFragmentDrop (packet : Bytes) : Bool :=
  let ihl := ipv4Ihl packet 0
  if packet.length < 20 then false
  else if ihl < 20 ∨ packet.length < ihl then false
  else
    let fragWord := get16 packet 6
    if fragWord &&& 0x1FFF ≠ 0 then true
    else if fragWord &&& 0x2000 = 0 then false
    else byteAt packet 9 = PROTO_ICMP

/-! ## Offsets of fragments -/

/-- The three bits below an offset. -/
theorem offsetBits_eq_zero (w : UInt16) : w >>> 3 = 0 ↔ w &&& 0xFFF8 = 0 := by
  have hw := UInt16.toNat_lt w
  rw [← UInt16.toNat_inj, ← UInt16.toNat_inj, UInt16.toNat_shiftRight, UInt16.toNat_and,
    UInt16.toNat_zero]
  change w.toNat >>> 3 = 0 ↔ w.toNat &&& 0xFFF8 = 0
  generalize w.toNat = n at hw ⊢
  constructor
  · intro h
    rw [Nat.shiftRight_eq_div_pow] at h
    have hlt : n < 8 := by omega
    interval_cases n <;> rfl
  · intro h
    have hlt : n < 2 ^ 3 := by
      apply Nat.lt_pow_two_of_testBit
      intro i hi
      by_cases hbig : 16 ≤ i
      · apply Nat.testBit_lt_two_pow
        exact lt_of_lt_of_le hw (Nat.pow_le_pow_right (by omega) hbig)
      · have hbit := congrArg (fun m => Nat.testBit m i) h
        have hmask : Nat.testBit 0xFFF8 i = true := by
          interval_cases i <;> rfl
        rwa [Nat.testBit_and, hmask, Bool.and_true, Nat.zero_testBit] at hbit
    rw [Nat.shiftRight_eq_div_pow]
    omega

/-- A fragment header with an offset is one of a later fragment. -/
theorem nonFirst_of_offset {packet : Bytes} {info : Ipv6FragInfo}
    (h : ipv6FragmentHeader packet = some info) (hoff : info.offsetUnits ≠ 0) :
    ipv6IsNonFirstFragment packet = true := by
  unfold ipv6FragmentHeader at h
  split_ifs at h
  simp only [Option.bind_eq_bind, Option.bind_eq_some_iff, Option.some.injEq] at h
  obtain ⟨f, hf, bytes, hbytes, rfl⟩ := h
  -- whichever header it is, the chain has it
  have hmem : f ∈ chainFragments packet := by
    rw [Option.or_eq_some_iff] at hf
    rcases hf with hf | ⟨-, hf⟩
    · exact List.mem_of_find?_eq_some hf
    · rw [walk_fragment] at hf
      exact List.mem_of_head? hf
  rw [walk_nonFirst, List.any_eq_true]
  refine ⟨f, hmem, ?_⟩
  rw [ExtChainFragment.nonFirst, hbytes, Option.any_some, decide_eq_true_eq]
  exact fun hzero => hoff ((offsetBits_eq_zero _).mpr hzero)

end Xpf.Nat64
