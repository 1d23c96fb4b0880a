/-
What the helpers of a rewrite do to a packet besides their result.

The validation of a rewrite says in advance where the helpers behind it will give up, and
for that two things have to be known of each helper. Which bytes it leaves alone, whether it
returns or not (`Below`): the repairs of ports and identifiers write behind the IP header
only. And when it is sure to return (`Settles`): the one thing a helper gives up on is an L4
checksum field outside the packet (`FieldIn`).
-/
import Xpf.FrameCommit

set_option autoImplicit false

namespace Xpf.Frames

open Xpf.ByteBuffer Xpf.Edits Xpf.Edits.Edit

/-! ## Edits behind an offset -/

/-- The buffer is as long as it was and the same in front of `k`. -/
def Below (k : ℕ) (b b' : Bytes) : Prop :=
  b'.length = b.length ∧ ∀ j < k, byteAt b' j = byteAt b j

theorem Below.refl (k : ℕ) (b : Bytes) : Below k b b := ⟨rfl, fun _ _ => rfl⟩

theorem Below.trans {k : ℕ} {a b c : Bytes} (h : Below k a b) (h' : Below k b c) : Below k a c :=
  ⟨h'.1.trans h.1, fun j hj => (h'.2 j hj).trans (h.2 j hj)⟩

theorem Below.mono {k l : ℕ} {b b' : Bytes} (h : Below l b b') (hkl : k ≤ l) : Below k b b' :=
  ⟨h.1, fun j hj => h.2 j (by omega)⟩

theorem below_writeAt {k i : ℕ} (b xs : Bytes) (h : k ≤ i) : Below k b (writeAt b i xs) :=
  ⟨length_writeAt _ _ _, fun _ hj => byteAt_writeAt_of_disjoint (by omega)⟩

section

variable {k : ℕ} {b : Bytes} {α : Type}

theorem onTail_keeps {start : ℕ} {m : Edit Bytes α} (h : ∀ t, Keeps (Below k) m t) :
    Keeps (Below (start + k)) (onTail start m) b := by
  by_cases hb : start ≤ b.length
  · have hlen : (b.take start).length = start := by
      rw [List.length_take]
      omega
    have hm := h (b.drop start)
    unfold Keeps at hm ⊢
    rw [onTail_run m hb]
    refine ⟨?_, fun j hj => ?_⟩
    · rw [List.length_append, hm.1, List.length_drop, hlen]
      omega
    · rcases Nat.lt_or_ge j start with hlt | hge
      · rw [byteAt_append_left (by omega), byteAt_take hlt]
      · obtain ⟨d, rfl⟩ : ∃ d, j = start + d := ⟨j - start, by omega⟩
        have hd := hm.2 d (by omega)
        rw [byteAt_drop] at hd
        have hright := byteAt_append_right (b.take start) (m.run (b.drop start)).2 d
        rw [hlen] at hright
        exact hright.trans hd
  · unfold Keeps onTail within
    simp only [hb, if_false]
    exact Below.refl _ _

theorem keeps_bind {β : Type} {m : Edit Bytes α} {f : α → Edit Bytes β}
    (hm : Keeps (Below k) m b) (hf : ∀ a b', Keeps (Below k) (f a) b') :
    Keeps (Below k) (m >>= f) b :=
  Keeps.bind (R := Below k) (fun _ _ _ => Below.trans) hm fun a b' _ => hf a b'

theorem writeWord_keeps {off : ℕ} (v : UInt16) (h : k ≤ off) :
    Keeps (Below k) (writeWord off v) b :=
  Keeps.require_bind (Below.refl k) fun _ => below_writeAt _ _ h

theorem adjustL4Checksum_keeps {field : Option ℕ} (protocol : UInt8) (family : ChecksumFamily)
    (skipZero : Bool) (update : UInt16 → UInt16) (h : ∀ off, field = some off → k ≤ off) :
    Keeps (Below k) (adjustL4Checksum field protocol family skipZero update) b := by
  unfold adjustL4Checksum
  split
  · exact Below.refl k b
  next off =>
    refine Keeps.check_bind (Below.refl k) fun current _ => ?_
    split
    · exact Below.refl k b
    · exact writeWord_keeps _ (h off rfl)

theorem writeL4SrcPort_keeps {l4 : ℕ} (port : UInt16) (h : k ≤ l4) :
    Keeps (Below k) (writeL4SrcPort l4 port) b := by
  unfold Keeps writeL4SrcPort
  rw [modify_run]
  dsimp only
  split_ifs
  · exact below_writeAt _ _ h
  · exact Below.refl k b

theorem writeL4DstPort_keeps {l4 : ℕ} (port : UInt16) (h : k ≤ l4) :
    Keeps (Below k) (writeL4DstPort l4 port) b := by
  unfold Keeps writeL4DstPort
  rw [modify_run]
  dsimp only
  split_ifs
  · exact below_writeAt _ _ (by omega)
  · exact Below.refl k b

theorem replacePort_keeps {write : UInt16 → Edit Bytes Unit} {l4 : ℕ} (protocol : UInt8)
    (family : ChecksumFamily) (old new : UInt16) (hw : ∀ port, Keeps (Below k) (write port) b)
    (h : k ≤ l4) : Keeps (Below k) (replacePort write l4 protocol family old new) b := by
  unfold replacePort
  split
  · refine keeps_bind (hw new) fun _ b' => ?_
    apply adjustL4Checksum_keeps
    intro off hoff
    obtain ⟨d, -, rfl⟩ := Option.map_eq_some_iff.mp hoff
    omega
  · exact Below.refl k b

theorem writeIcmpIdentifier_keeps {l4 : ℕ} (protocol : UInt8) (family : ChecksumFamily)
    (newIdent : UInt16) (h : k ≤ l4) :
    Keeps (Below k) (writeIcmpIdentifier l4 protocol family newIdent) b := by
  unfold writeIcmpIdentifier Keeps
  simp only [read_bind_run]
  split_ifs
  iterate 4 exact Below.refl k b
  refine keeps_bind (writeWord_keeps _ (by omega)) fun _ b' => ?_
  refine Keeps.check_bind (Below.refl k) fun current _ => ?_
  exact keeps_bind (writeWord_keeps _ (by omega)) fun _ b' => Below.refl k b'

theorem restoreL4TupleFromMeta_keeps (fpm : ForwardPacketMeta) {relL4 : ℕ}
    (nonFirstFragment : Bool) (h : k ≤ relL4) :
    Keeps (Below k) (restoreL4TupleFromMeta fpm relL4 nonFirstFragment) b := by
  unfold restoreL4TupleFromMeta
  split
  · exact Below.refl k b
  · split
    · split
      · exact Below.refl k b
      · exact writeIcmpIdentifier_keeps _ _ _ h
    · exact Below.refl k b

/-- Ports are enforced behind the IP header the frame has. -/
theorem enforceExpectedPorts_keeps (addrFamily protocol : UInt8)
    (expectedPorts : Option (UInt16 × UInt16)) (nonFirstFragment : Bool) :
    Keeps (Below 34) (enforceExpectedPorts addrFamily protocol expectedPorts nonFirstFragment)
      b := by
  unfold enforceExpectedPorts
  split
  · exact Below.refl 34 b
  · split
    · exact Below.refl 34 b
    · split
      · exact Below.refl 34 b
      · refine Keeps.check_bind (Below.refl 34) fun l3 hl3 => ?_
        refine Keeps.check_bind (Below.refl 34) fun l4 hl4 => ?_
        refine Keeps.check_bind (Below.refl 34) fun ports _ => ?_
        dsimp only
        split
        · exact Below.refl 34 b
        · refine Keeps.require_bind (Below.refl 34) fun _ => ?_
          have h3 := frameL3Offset_ge hl3
          have h4 := frameL4Offset_ge hl3 hl4
          refine keeps_bind ?_ fun _ b' => Below.refl 34 b'
          refine Below.mono (onTail_keeps (k := 20) fun t => ?_) (by omega : 34 ≤ l3 + 20)
          exact keeps_bind
            (replacePort_keeps _ _ _ _ (fun port => writeL4SrcPort_keeps port (by omega)) (by omega))
            fun _ b' =>
              replacePort_keeps _ _ _ _ (fun port => writeL4DstPort_keeps port (by omega)) (by omega)

end

/-! ## Edits that end -/

/-- The program does not decline, and leaves a buffer of the same length. -/
def Settles {α : Type} (m : Edit Bytes α) (b : Bytes) : Prop :=
  Ends m b fun _ b' => b'.length = b.length

section

variable {α β : Type} {b : Bytes}

theorem Settles.pure (a : α) : Settles (pure a) b := ⟨a, b, rfl, rfl⟩

theorem Settles.modify {f : Bytes → Bytes} (h : (f b).length = b.length) : Settles (modify f) b :=
  ⟨(), f b, rfl, h⟩

theorem Settles.bind {m : Edit Bytes α} {f : α → Edit Bytes β} (hm : Settles m b)
    (hf : ∀ a b', b'.length = b.length → Settles (f a) b') : Settles (m >>= f) b :=
  Ends.bind hm fun a b' hlen => (hf a b' hlen).mono fun _ _ h => h.trans hlen

theorem Settles.read_bind {f : Bytes → α} {k : α → Edit Bytes β} (h : Settles (k (f b)) b) :
    Settles (read f >>= k) b := h

theorem Settles.check_bind {f : Bytes → Option α} {k : α → Edit Bytes β} {a : α}
    (hf : f b = some a) (h : Settles (k a) b) : Settles (check f >>= k) b := by
  obtain ⟨c, b', hrun, hlen⟩ := h
  exact ⟨c, b', (check_bind_run hf).trans hrun, hlen⟩

theorem Settles.require_bind {p : Bytes → Prop} [DecidablePred p] {k : Unit → Edit Bytes β}
    (hp : p b) (h : Settles (k ()) b) : Settles (require p >>= k) b :=
  Settles.check_bind (if_pos hp) h

theorem Settles.doIf {c : Bool} {m : Edit Bytes Unit} (h : c = true → Settles m b) :
    Settles (doIf c m) b := by
  unfold Frames.doIf
  split
  next hc => exact h hc
  next => exact Settles.pure ()

theorem Settles.onTail {start : ℕ} {m : Edit Bytes α} (hb : start ≤ b.length)
    (h : Settles m (b.drop start)) : Settles (onTail start m) b := by
  obtain ⟨a, t, hrun, hlen⟩ := h
  refine ⟨a, b.take start ++ t, by rw [onTail_run m hb, hrun], ?_⟩
  dsimp only
  rw [List.length_append, List.length_take, hlen, List.length_drop]
  omega

theorem Settles.onHead {len : ℕ} {m : Edit Bytes α} (hb : len ≤ b.length)
    (h : Settles m (b.take len)) : Settles (onHead len m) b := by
  obtain ⟨a, t, hrun, hlen⟩ := h
  refine ⟨a, t ++ b.drop len, by rw [onHead_run m hb, hrun], ?_⟩
  dsimp only
  rw [List.length_append, List.length_drop, hlen, List.length_take]
  omega

theorem writeWord_settles {off : ℕ} (v : UInt16) (h : off + 2 ≤ b.length) :
    Settles (writeWord off v) b :=
  ⟨(), _, writeWord_run v h, length_put16 _ _ _⟩

/-- The checksum field a delta stands for is in the packet. -/
def FieldIn (delta : Option ℕ) (relL4 len : ℕ) : Prop := ∀ d, delta = some d → relL4 + d + 2 ≤ len

theorem adjustL4Checksum_settles {delta : Option ℕ} {relL4 : ℕ} (protocol : UInt8)
    (family : ChecksumFamily) (skipZero : Bool) (update : UInt16 → UInt16)
    (h : FieldIn delta relL4 b.length) :
    Settles (adjustL4Checksum (delta.map (relL4 + ·)) protocol family skipZero update) b := by
  cases delta with
  | none => exact Settles.pure ()
  | some d =>
    exact ⟨(), _, adjustL4Checksum_run protocol family skipZero update (h d rfl),
      length_put16 _ _ _⟩

/-- The ports have their checksum where the addresses do. -/
theorem FieldIn.ofV6 {protocol : UInt8} {relL4 len : ℕ}
    (h : FieldIn (l4ChecksumFieldDeltaV6 protocol) relL4 len) :
    FieldIn (l4ChecksumFieldDeltaV4 protocol) relL4 len := by
  intro d hd
  apply h d
  unfold l4ChecksumFieldDeltaV4 at hd
  unfold l4ChecksumFieldDeltaV6
  split_ifs at hd ⊢ with htcp hudp
  · exact hd
  · exact hd

/-! ### Ports -/

theorem writeL4SrcPort_settles (l4 : ℕ) (port : UInt16) : Settles (writeL4SrcPort l4 port) b := by
  apply Settles.modify
  split_ifs <;> simp

theorem writeL4DstPort_settles (l4 : ℕ) (port : UInt16) : Settles (writeL4DstPort l4 port) b := by
  apply Settles.modify
  split_ifs <;> simp

theorem rewritePort_settles {write : UInt16 → Edit Bytes Unit} {l4Offset : ℕ} (portOffset : ℕ)
    {protocol : UInt8} (family : ChecksumFamily) (port : Option UInt16)
    (hw : ∀ new, Settles (write new) b)
    (h : FieldIn (l4ChecksumFieldDeltaV4 protocol) l4Offset b.length) :
    Settles (rewritePort write l4Offset portOffset protocol family port) b := by
  cases port with
  | none => exact Settles.pure ()
  | some new =>
    rw [rewritePort]
    refine Settles.read_bind ?_
    unfold replacePort
    split
    · refine (hw new).bind fun _ b' hlen => ?_
      exact adjustL4Checksum_settles _ _ _ _ (by rwa [hlen])
    · exact Settles.pure ()

theorem portParity_settles (l4Offset : ℕ) (protocol : UInt8) (family : ChecksumFamily)
    (nat : NatDecision) : Settles (portParity l4Offset protocol family nat) b := by
  unfold portParity
  split
  · refine Settles.read_bind ?_
    split
    next hstored => exact writeWord_settles _ (getRange_eq_some hstored).1
    next => exact Settles.pure ()
  · exact Settles.pure ()

theorem applyNatPortRewrite_settles {l4Offset : ℕ} {protocol : UInt8} (family : ChecksumFamily)
    (nat : NatDecision) (h : FieldIn (l4ChecksumFieldDeltaV4 protocol) l4Offset b.length) :
    Settles (applyNatPortRewrite l4Offset protocol family nat) b := by
  unfold applyNatPortRewrite
  split
  · exact Settles.pure ()
  · refine Settles.read_bind ?_
    split
    · exact Settles.pure ()
    · refine (rewritePort_settles _ _ _ (writeL4SrcPort_settles l4Offset) h).bind fun _ b' hlen => ?_
      refine (rewritePort_settles _ _ _ (writeL4DstPort_settles l4Offset) (by rwa [hlen])).bind
        fun _ b'' _ => ?_
      exact portParity_settles _ _ _ _

/-! ### ICMP identifiers -/

/-- An identifier is changed only where it is in the packet, and then its checksum is too. -/
theorem writeIcmpIdentifier_ends (l4Offset : ℕ) (protocol : UInt8) (family : ChecksumFamily)
    (newIdent : UInt16) :
    Ends (writeIcmpIdentifier l4Offset protocol family newIdent) b fun changed b' =>
      b'.length = b.length ∧ (changed = true →
        (protocol = PROTO_ICMP ∨ protocol = PROTO_ICMPV6) ∧ l4Offset + 6 ≤ b.length) := by
  unfold writeIcmpIdentifier Ends
  simp only [read_bind_run]
  split_ifs with hproto hlen htype hident
  iterate 4 exact ⟨false, b, rfl, rfl, by simp⟩
  have hin : l4Offset + 6 ≤ b.length := by omega
  rw [bind_run_some (writeWord_run newIdent (by omega)),
    bind_run_some (readWord_run (by rw [length_put16]; omega)),
    bind_run_some (writeWord_run _ (by rw [length_put16]; omega))]
  refine ⟨true, _, rfl, by simp, fun _ => ⟨?_, hin⟩⟩
  by_contra hno
  exact hproto (not_or.mp hno)

theorem applyNatIcmpIdentifierRewrite_settles (l4Offset : ℕ) (protocol : UInt8)
    (family : ChecksumFamily) (nat : NatDecision) :
    Settles (applyNatIcmpIdentifierRewrite l4Offset protocol family nat) b := by
  unfold applyNatIcmpIdentifierRewrite
  split
  · exact Settles.pure ()
  · split
    · exact Settles.pure ()
    next newIdent _ =>
      refine Settles.bind ?_ fun _ b' _ => Settles.pure ()
      exact (writeIcmpIdentifier_ends l4Offset protocol family newIdent).mono fun _ _ h => h.1

theorem applyNatL4_settles {l4Offset : ℕ} {protocol : UInt8} (family : ChecksumFamily)
    (nat : NatDecision) {nonFirstFragment : Bool}
    (h : nonFirstFragment = false →
      FieldIn (l4ChecksumFieldDeltaV4 protocol) l4Offset b.length) :
    Settles (applyNatL4 l4Offset protocol family nat nonFirstFragment) b := by
  unfold applyNatL4
  split
  · exact Settles.pure ()
  next hf =>
    refine (applyNatPortRewrite_settles family nat (h (by simpa using hf))).bind fun _ b' _ => ?_
    exact applyNatIcmpIdentifierRewrite_settles _ _ _ _

/-! ### Addresses -/

theorem writeAddr_settles {i : ℕ} (xs : Bytes) : Settles (modify fun b => writeAt b i xs) b :=
  Settles.modify (length_writeAt _ _ _)

theorem adjustBothIpv4_settles {ihl : ℕ} {protocol : UInt8} (oldSrc newSrc oldDst newDst : Ipv4Addr)
    (h : FieldIn (l4ChecksumFieldDeltaV4 protocol) ihl b.length) :
    Settles (adjustBothIpv4 ihl protocol oldSrc newSrc oldDst newDst) b := by
  unfold adjustBothIpv4
  split
  · exact adjustL4Checksum_settles _ _ _ _ h
  · split
    · refine Settles.read_bind ?_
      split
      · exact Settles.pure ()
      · exact adjustL4Checksum_settles _ _ _ _ h
    · exact Settles.pure ()

theorem applyNatIpv4Addrs_settles {ihl : ℕ} {protocol : UInt8} {nonFirstFragment : Bool}
    (newSrc newDst : Option Ipv4Addr)
    (h : nonFirstFragment = false → FieldIn (l4ChecksumFieldDeltaV4 protocol) ihl b.length) :
    Settles (applyNatIpv4Addrs ihl protocol nonFirstFragment newSrc newDst) b := by
  have hif : ∀ {m : Edit Bytes Unit} {b' : Bytes}, (nonFirstFragment = false → Settles m b') →
      Settles (if nonFirstFragment = true then Pure.pure () else m) b' := by
    intro m b' hm
    split
    · exact Settles.pure ()
    next hf => exact hm (by simpa using hf)
  unfold applyNatIpv4Addrs
  refine Settles.read_bind (Settles.read_bind ?_)
  split
  · refine (writeAddr_settles _).bind fun _ b' hlen => hif fun hf => ?_
    exact adjustL4Checksum_settles _ _ _ _ (by rw [hlen]; exact h hf)
  · refine (writeAddr_settles _).bind fun _ b' hlen => hif fun hf => ?_
    exact adjustL4Checksum_settles _ _ _ _ (by rw [hlen]; exact h hf)
  · refine (writeAddr_settles _).bind fun _ b' hlen => ?_
    refine (writeAddr_settles _).bind fun _ b'' hlen' => hif fun hf => ?_
    exact adjustBothIpv4_settles _ _ _ _ (by rw [hlen', hlen]; exact h hf)
  · exact Settles.pure ()

/-- **The NAT leaf of IPv4 ends** on a packet whose header and checksum field are there. -/
theorem applyNatIpv4_settles {protocol : UInt8} {nat : NatDecision} {nonFirstFragment : Bool}
    (hlen : 20 ≤ b.length) (hihl : 20 ≤ ipv4Ihl b 0 ∧ ipv4Ihl b 0 ≤ b.length)
    (h : nat ≠ NatDecision.default → nonFirstFragment = false →
      FieldIn (l4ChecksumFieldDeltaV4 protocol) (ipv4Ihl b 0) b.length) :
    Settles (applyNatIpv4 protocol nat nonFirstFragment) b := by
  unfold applyNatIpv4
  split
  · exact Settles.pure ()
  next hnat =>
    refine Settles.require_bind hlen (Settles.read_bind (Settles.require_bind hihl ?_))
    refine (applyNatIpv4Addrs_settles _ _ (h hnat)).bind fun _ b' hb' => ?_
    exact applyNatL4_settles _ _ fun hf => by rw [hb']; exact h hnat hf

theorem adjustBothIpv6_settles {relL4 : ℕ} {protocol : UInt8}
    (oldSrc newSrc oldDst newDst : Ipv6Addr)
    (h : FieldIn (l4ChecksumFieldDeltaV6 protocol) relL4 b.length) :
    Settles (adjustBothIpv6 relL4 protocol oldSrc newSrc oldDst newDst) b := by
  unfold adjustBothIpv6
  split
  · refine Settles.bind (adjustL4Checksum_settles _ _ _ _ h) fun _ b' hlen => ?_
    exact adjustL4Checksum_settles _ _ _ _ (by rwa [hlen])
  · exact Settles.pure ()

theorem applyNatIpv6Addrs_settles {relL4 : ℕ} {protocol : UInt8} {skipL4Csum : Bool}
    (newSrc newDst : Option Ipv6Addr)
    (h : skipL4Csum = false → FieldIn (l4ChecksumFieldDeltaV6 protocol) relL4 b.length) :
    Settles (applyNatIpv6Addrs relL4 protocol skipL4Csum newSrc newDst) b := by
  have hif : ∀ {m : Edit Bytes Unit} {b' : Bytes}, (skipL4Csum = false → Settles m b') →
      Settles (if skipL4Csum = true then Pure.pure () else m) b' := by
    intro m b' hm
    split
    · exact Settles.pure ()
    next hf => exact hm (by simpa using hf)
  unfold applyNatIpv6Addrs
  refine Settles.read_bind (Settles.read_bind ?_)
  split
  · refine (writeAddr_settles _).bind fun _ b' hlen => hif fun hf => ?_
    exact adjustL4Checksum_settles _ _ _ _ (by rw [hlen]; exact h hf)
  · refine (writeAddr_settles _).bind fun _ b' hlen => hif fun hf => ?_
    exact adjustL4Checksum_settles _ _ _ _ (by rw [hlen]; exact h hf)
  · refine (writeAddr_settles _).bind fun _ b' hlen => ?_
    refine (writeAddr_settles _).bind fun _ b'' hlen' => hif fun hf => ?_
    exact adjustBothIpv6_settles _ _ _ _ (by rw [hlen', hlen]; exact h hf)
  · exact Settles.pure ()

/-- A decision without rewrites has none to strip. -/
theorem stripPorts_default (ahSighted : Bool) :
    stripPorts ahSighted NatDecision.default = NatDecision.default := by
  cases ahSighted <;> rfl

/-- **The NAT leaf of IPv6 ends**, under the same conditions. -/
theorem applyNatIpv6_settles {relL4 : ℕ} {protocol : UInt8} {nat : NatDecision}
    {nonFirstFragment : Bool} (hlen : 40 ≤ b.length)
    (h : nat ≠ NatDecision.default → nonFirstFragment = false →
      FieldIn (l4ChecksumFieldDeltaV6 protocol) relL4 b.length) :
    Settles (applyNatIpv6 relL4 protocol nat nonFirstFragment) b := by
  unfold applyNatIpv6
  refine Settles.read_bind ?_
  dsimp only
  split
  · exact Settles.pure ()
  next hstrip =>
    have hnat : nat ≠ NatDecision.default := by
      rintro rfl
      exact hstrip (stripPorts_default _)
    refine Settles.require_bind hlen ?_
    refine (applyNatIpv6Addrs_settles _ _ fun hskip => h hnat ?_).bind fun _ b' hb' => ?_
    · simp only [Bool.or_eq_false_iff] at hskip
      exact hskip.2
    · exact applyNatL4_settles _ _ fun hf => by rw [hb']; exact (h hnat hf).ofV6

/-! ### Header checksum and recomputation -/

theorem adjustIpv4HeaderChecksum_settles (oldSrc oldDst : Ipv4Addr) (oldTtl : UInt8)
    (h : 20 ≤ b.length) : Settles (adjustIpv4HeaderChecksum oldSrc oldDst oldTtl) b := by
  unfold adjustIpv4HeaderChecksum
  refine Settles.require_bind h ?_
  iterate 5 refine Settles.read_bind ?_
  exact writeWord_settles _ (by omega)

theorem recomputeField_settles {l4 field headerLen : ℕ} (zeroIllegal : Bool) (sum : Bytes → UInt16)
    (h : headerLen ≤ b.length - l4) (hfield : l4 + field + 2 ≤ b.length) :
    Settles (recomputeField l4 field headerLen zeroIllegal sum) b := by
  unfold recomputeField
  refine Settles.require_bind h ?_
  refine (writeWord_settles _ hfield).bind fun _ b' hlen => Settles.read_bind ?_
  exact writeWord_settles _ (by omega)

/-- After a repaired identifier: ICMP has no checksum over the IPv4 addresses. -/
theorem recomputeL4ChecksumIpv4_settles {ihl : ℕ} {protocol : UInt8} (zeroOffset : Bool)
    (hicmp : protocol = PROTO_ICMP ∨ protocol = PROTO_ICMPV6) (h : ihl ≤ b.length) :
    Settles (recomputeL4ChecksumIpv4 ihl protocol zeroOffset) b := by
  unfold recomputeL4ChecksumIpv4
  refine Settles.require_bind h ?_
  rcases hicmp with rfl | rfl <;> exact Settles.pure ()

theorem recomputeL4ChecksumIpv6_settles {relL4 : ℕ} {protocol : UInt8}
    (hicmp : protocol = PROTO_ICMP ∨ protocol = PROTO_ICMPV6) (hlen : 40 ≤ b.length)
    (h : relL4 + 6 ≤ b.length) : Settles (recomputeL4ChecksumIpv6 relL4 protocol) b := by
  unfold recomputeL4ChecksumIpv6
  refine Settles.require_bind (by omega) ?_
  refine Settles.check_bind (getRange_of_le (by omega)) ?_
  refine Settles.check_bind (getRange_of_le (by omega)) ?_
  rcases hicmp with rfl | rfl
  · exact Settles.pure ()
  · exact recomputeField_settles _ _ (by omega) (by omega)

end

end Xpf.Frames
