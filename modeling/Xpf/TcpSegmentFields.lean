/-
The fields of one segment.

A segment is the headers of the datagram and a chunk of its data. `IsSegment` says so field
by field, in terms a receiver reads: what is cloned, what is not, and that the length fields
and the checksums are those of the segment itself. Everything is read off the closed form of
`segmentPacket`: outside the ranges it writes (`Forwarded`) a packet is its draft, and the
draft is the datagram outside the stamped fields.
-/
import Xpf.TcpSegmentBuild

set_option autoImplicit false

namespace Xpf.Frames

open Xpf.ByteBuffer Xpf.Edits Xpf.Edits.Edit Xpf.OnesComplement Xpf.WordSums

/-! ## What forwarding writes -/

/-- The bytes a segment is forwarded by: the length, the TTL, the header checksum, the
addresses, the ports and the TCP checksum. -/
def Forwarded (addrFamily : UInt8) (l4 i : ℕ) : Prop :=
  (if addrFamily = AF_INET then (2 ≤ i ∧ i < 4) ∨ i = 8 ∨ (10 ≤ i ∧ i < 20)
    else 4 ≤ i ∧ i ≠ 6 ∧ i < 40)
  ∨ (l4 ≤ i ∧ i < l4 + 4) ∨ (l4 + 16 ≤ i ∧ i < l4 + 18)

section

variable {p : Bytes} {plan : SegmentPlan} {nat : NatDecision} {skipTtl : Bool} {len : UInt16}

theorem byteAt_natL4Fields_tcp {l4 i : ℕ} (h : i < l4 ∨ l4 + 4 ≤ i) :
    byteAt (natL4Fields PROTO_TCP nat l4 p) i = byteAt p i := by
  rw [natL4Fields, if_pos (show hasL4Ports PROTO_TCP = true from rfl), natPorts, byteAt_setWord_of_disjoint _ (by omega),
    byteAt_setWord_of_disjoint _ (by omega)]

/-- Outside the addresses and the ports NAT changes nothing. -/
theorem byteAt_natFields4_tcp {i : ℕ} (h : i < 12 ∨ 20 ≤ i)
    (hports : i < ipv4Ihl p 0 ∨ ipv4Ihl p 0 + 4 ≤ i) :
    byteAt (natFields4 PROTO_TCP nat p) i = byteAt p i := by
  rw [natFields4, byteAt_natL4Fields_tcp hports, byteAt_setAddr_of_disjoint _ (by omega),
    byteAt_setAddr_of_disjoint _ (by omega)]

theorem byteAt_natFields6_tcp {relL4 i : ℕ} (h : i < 8 ∨ 40 ≤ i)
    (hports : i < relL4 ∨ relL4 + 4 ≤ i) :
    byteAt (natFields6 relL4 PROTO_TCP nat p) i = byteAt p i := by
  rw [natFields6, byteAt_natL4Fields_tcp hports, byteAt_setAddr_of_disjoint _ (by omega),
    byteAt_setAddr_of_disjoint _ (by omega)]

/-- The header length of an IPv4 segment on its way through the writes. -/
theorem ipv4Ihl_ports (h : Emits4 plan p) (len : UInt16) :
    ipv4Ihl (setPorts plan.enforcedPorts plan.ipHeaderLen (put16 p 2 len)) 0 = plan.ipHeaderLen := by
  have h20 := h.header
  rw [ipv4Ihl, byteAt_setPorts (by omega), byteAt_put16_of_disjoint (by omega), ← h.ihl, ipv4Ihl]

@[simp] theorem length_emitted4 : (emitted4 plan skipTtl nat len p).length = p.length := by
  rw [emitted4, length_ttlDown, length_natFields4, length_setPorts, length_put16]

@[simp] theorem length_emitted6 : (emitted6 plan skipTtl nat len p).length = p.length := by
  rw [emitted6, length_ttlDown, length_natFields6, length_setPorts, length_put16]

theorem byteAt_emitted4 (h : Emits4 plan p) {i : ℕ}
    (hi : i < 2 ∨ (4 ≤ i ∧ i ≠ 8 ∧ i < 12) ∨ 20 ≤ i)
    (hports : i < plan.ipHeaderLen ∨ plan.ipHeaderLen + 4 ≤ i) :
    byteAt (emitted4 plan skipTtl nat len p) i = byteAt p i := by
  rw [emitted4, byteAt_ttlDown (by omega),
    byteAt_natFields4_tcp (by omega) (by rw [ipv4Ihl_ports h]; exact hports),
    byteAt_setPorts hports, byteAt_put16_of_disjoint (by omega)]

theorem byteAt_emitted6 {i : ℕ} (hi : i < 4 ∨ i = 6 ∨ 40 ≤ i)
    (hports : i < plan.ipHeaderLen ∨ plan.ipHeaderLen + 4 ≤ i) :
    byteAt (emitted6 plan skipTtl nat len p) i = byteAt p i := by
  rw [emitted6, byteAt_ttlDown (by omega), byteAt_natFields6_tcp (by omega) hports,
    byteAt_setPorts hports, byteAt_put16_of_disjoint (by omega)]

theorem byteAt_withChecksums4 {ihl i : ℕ} (h : i < 10 ∨ 12 ≤ i)
    (h' : i < ihl + 16 ∨ ihl + 18 ≤ i) : byteAt (withChecksums4 ihl p) i = byteAt p i := by
  rw [withChecksums4, byteAt_put16_of_disjoint (by omega), byteAt_put16_of_disjoint (by omega)]

theorem byteAt_withChecksum6 {relL4 i : ℕ} (h : i < relL4 + 16 ∨ relL4 + 18 ≤ i) :
    byteAt (withChecksum6 relL4 p) i = byteAt p i := by
  rw [withChecksum6, byteAt_put16_of_disjoint (by omega)]

end

/-! ## Flags -/

/-- The flags nothing clears. -/
def TCP_FLAGS_KEPT : UInt8 := ~~~(TCP_FLAG_PSH ||| TCP_FLAG_FIN ||| TCP_FLAG_CWR ||| TCP_FLAG_URG)

section

variable (dataOffset : ℕ) (first isLast : Bool) (urgPtr : UInt16) (flags : UInt8)

/-- PSH and FIN are for the last segment. -/
theorem segmentFlags_pushed :
    segmentFlags dataOffset first isLast urgPtr flags &&& (TCP_FLAG_PSH ||| TCP_FLAG_FIN)
      = if isLast then flags &&& (TCP_FLAG_PSH ||| TCP_FLAG_FIN) else 0 := by
  unfold segmentFlags
  cases isLast <;> dsimp only <;> split_ifs <;> simp only [UInt8.and_assoc] <;>
    first | rfl | exact UInt8.and_zero

/-- CWR is for the first segment. -/
theorem segmentFlags_reduced :
    segmentFlags dataOffset first isLast urgPtr flags &&& TCP_FLAG_CWR
      = if first then flags &&& TCP_FLAG_CWR else 0 := by
  unfold segmentFlags
  cases isLast <;> dsimp only <;> split_ifs <;> simp only [UInt8.and_assoc] <;>
    first | rfl | exact UInt8.and_zero

theorem segmentFlags_kept :
    segmentFlags dataOffset first isLast urgPtr flags &&& TCP_FLAGS_KEPT
      = flags &&& TCP_FLAGS_KEPT := by
  unfold segmentFlags
  cases isLast <;> dsimp only <;> split_ifs <;> simp only [UInt8.and_assoc] <;> rfl

/-- URG is for the segments up to the urgent point. -/
theorem segmentFlags_urgent :
    segmentFlags dataOffset first isLast urgPtr flags &&& TCP_FLAG_URG
      = if first ∨ dataOffset % 2 ^ 32 ≤ urgPtr.toNat then flags &&& TCP_FLAG_URG else 0 := by
  -- none of the flags cleared before is URG
  have hpush : ∀ f : UInt8, (if isLast then f else f &&& ~~~(TCP_FLAG_PSH ||| TCP_FLAG_FIN))
      &&& TCP_FLAG_URG = f &&& TCP_FLAG_URG := by
    intro f
    cases isLast
    · rw [if_neg Bool.false_ne_true, UInt8.and_assoc]
      rfl
    · rfl
  have hcwr : ∀ f : UInt8, f &&& ~~~TCP_FLAG_CWR &&& TCP_FLAG_URG = f &&& TCP_FLAG_URG := by
    intro f
    rw [UInt8.and_assoc]
    rfl
  have hclear : ∀ f : UInt8, f &&& ~~~TCP_FLAG_URG &&& TCP_FLAG_URG = 0 := by
    intro f
    rw [UInt8.and_assoc]
    exact UInt8.and_zero
  unfold segmentFlags
  dsimp only
  by_cases hfirst : first = true
  · rw [if_pos hfirst, hpush, if_pos (.inl hfirst)]
  rw [if_neg hfirst, hcwr, hpush]
  by_cases hle : dataOffset % 2 ^ 32 ≤ urgPtr.toNat
  · rw [if_neg (fun hn => absurd hn.2 (Nat.not_lt.mpr hle)), hcwr, hpush, if_pos (.inr hle)]
  · have hno : ¬(first = true ∨ dataOffset % 2 ^ 32 ≤ urgPtr.toNat) := by
      rintro (hf | hl)
      · exact hfirst hf
      · exact hle hl
    by_cases hurg : flags &&& TCP_FLAG_URG = 0
    · rw [if_neg (fun hn => hn.1 hurg), hcwr, hpush, hurg, ite_self]
    · rw [if_pos ⟨hurg, Nat.not_le.mp hle⟩, hclear, if_neg hno]

end

/-! ## The sequence number and the urgent point -/

section

variable {tcp : Bytes} {seq : UInt32} {flags : UInt8} {urgPtr : UInt16}

theorem get32_stamped (h : 20 ≤ tcp.length) : get32 (stamped tcp seq flags urgPtr) 4 = seq := by
  have hbyte : ∀ i, i < 4 →
      byteAt (stamped tcp seq flags urgPtr) (4 + i) = byteAt (toBe32 seq) i := by
    intro i hi
    rw [stamped, byteAt_put16_of_disjoint (by omega),
      byteAt_writeAt_of_disjoint (by rw [List.length_singleton]; omega), byteAt_writeAt,
      if_pos ⟨by omega, by rw [length_toBe32]; omega, by omega⟩, Nat.add_sub_cancel_left]
  have hhi : get16 (stamped tcp seq flags urgPtr) 4 = UInt16.ofNat (seq.toNat / 65536) := by
    rw [get16, hbyte 0 (by omega), hbyte 1 (by omega)]
    exact fromBe_toBe _
  have hlo : get16 (stamped tcp seq flags urgPtr) (4 + 2) = UInt16.ofNat seq.toNat := by
    rw [get16, hbyte 2 (by omega), hbyte 3 (by omega)]
    exact fromBe_toBe _
  have hlt := UInt32.toNat_lt seq
  rw [get32, hhi, hlo, UInt16.toNat_ofNat', UInt16.toNat_ofNat']
  apply UInt32.toNat_inj.mp
  rw [UInt32.toNat_ofNat']
  omega

/-- The urgent point of a segment that has one is the urgent point of the datagram. -/
theorem urgentPoint (originalSeq : UInt32) {dataOffset : ℕ} {first : Bool}
    (hlt : dataOffset < 2 ^ 32) (hfirst : first = true → dataOffset = 0)
    (hurg : flags &&& TCP_FLAG_URG ≠ 0)
    (hset : first = true ∨ dataOffset % 2 ^ 32 ≤ urgPtr.toNat) :
    originalSeq + UInt32.ofNat dataOffset
        + UInt32.ofNat (segmentUrgPtr dataOffset first urgPtr flags).toNat
      = originalSeq + UInt32.ofNat urgPtr.toNat := by
  have hptr := UInt16.toNat_lt urgPtr
  have hmod : dataOffset % 2 ^ 32 = dataOffset := Nat.mod_eq_of_lt hlt
  have hval : dataOffset + (segmentUrgPtr dataOffset first urgPtr flags).toNat = urgPtr.toNat := by
    rw [segmentUrgPtr]
    by_cases hf : first = true
    · rw [if_pos (.inl hf), hfirst hf, Nat.zero_add]
    · have hle : dataOffset % 2 ^ 32 ≤ urgPtr.toNat := hset.resolve_left hf
      have hno : ¬(first = true ∨ flags &&& TCP_FLAG_URG = 0) := by
        rintro (h | h)
        · exact hf h
        · exact hurg h
      rw [if_neg hno, if_pos hle, hmod, UInt16.toNat_ofNat', Nat.mod_eq_of_lt (by omega)]
      omega
  rw [UInt32.add_assoc, ← UInt32.ofNat_add, hval]

end

/-! ## Checksums -/

section

variable {q : Bytes} {l4 : ℕ}

theorem drop_put16 (b : Bytes) (k i : ℕ) (v : UInt16) :
    (put16 b (k + i) v).drop k = put16 (b.drop k) i v := by
  rw [put16, drop_writeAt (Nat.le_add_right k i), Nat.add_sub_cancel_left, put16]

/-- A header with its checksum verifies. -/
theorem checksum16_withChecksums4 (h20 : 20 ≤ l4) (hlen : l4 + 20 ≤ q.length)
    (hmax : q.length ≤ 65575) : checksum16 ((withChecksums4 l4 q).take l4) = 0 := by
  have htake : ∀ v, (put16 q 10 v).take l4 = put16 (q.take l4) 10 v :=
    fun v => take_writeAt (by rw [length_toBe]; omega)
  have hlenq : (q.take l4).length = l4 := List.length_take_of_le (by omega)
  have hsum : fullHeaderChecksum l4 q = checksum16 (put16 (q.take l4) 10 0) := by
    rw [fullHeaderChecksum, htake, checksum16_eq (by rw [length_put16]; omega)]
  rw [withChecksums4, put16.eq_def _ (l4 + 16), take_writeAt_of_le (by omega), htake, hsum]
  exact Nat64.checksum16_recomputed 10 rfl (by omega) (by omega)

/-- A TCP segment with its checksum verifies, over the pseudo-header of IPv4. -/
theorem checksum16Ipv4_withChecksums4 (h20 : 20 ≤ l4) (hlen : l4 + 20 ≤ q.length)
    (hmax : q.length ≤ 65575) :
    checksum16Ipv4 (sub (withChecksums4 l4 q) 12 4) (sub (withChecksums4 l4 q) 16 4) PROTO_TCP
      ((withChecksums4 l4 q).drop l4) = 0 := by
  have hsub : ∀ i, 12 ≤ i → i + 4 ≤ 20 → sub (withChecksums4 l4 q) i 4 = sub q i 4 := by
    intro i h1 h2
    rw [withChecksums4, put16.eq_def _ (l4 + 16), sub_writeAt_of_disjoint (.inl (by omega)), put16,
      sub_writeAt_of_disjoint (.inr (by rw [length_toBe]; omega))]
  have hdrop : (withChecksums4 l4 q).drop l4
      = put16 (q.drop l4) 16 (fullL4Checksum4 PROTO_TCP l4 (l4 + 16) q) := by
    rw [withChecksums4, drop_put16, put16.eq_def _ 10,
      drop_writeAt_of_le (by rw [length_toBe]; omega)]
  -- what the pseudo-header adds is the same with and without the checksum
  have hpseudo : l4Sum4 PROTO_TCP l4 (put16 q (l4 + 16) 0)
      = wordSum (sub q 12 4) + wordSum (sub q 16 4) + PROTO_TCP.toNat
        + (saturateLen16 (q.length - l4)).toNat + wordSum (put16 (q.drop l4) 16 0) := by
    rw [l4Sum4, drop_put16, length_put16, put16.eq_def _ (l4 + 16),
      sub_writeAt_of_disjoint (.inl (by omega)), sub_writeAt_of_disjoint (.inl (by omega))]
  have hlength : (withChecksums4 l4 q).length = q.length := by
    rw [withChecksums4, length_put16, length_put16]
  rw [checksum16Ipv4_eq _ (by rwa [hlength]), l4Sum4, hsub 12 (by omega) (by omega),
    hsub 16 (by omega) (by omega), hlength, hdrop, fullL4Checksum4, hpseudo]
  exact Nat64.finish_recomputed PROTO_TCP .v4 _ rfl (by rw [List.length_drop]; omega)

/-- The same over the pseudo-header of IPv6. -/
theorem checksum16Ipv6_withChecksum6 (h40 : 40 ≤ l4) (hlen : l4 + 20 ≤ q.length)
    (hmax : q.length ≤ 65575) :
    checksum16Ipv6 (sub (withChecksum6 l4 q) 8 16) (sub (withChecksum6 l4 q) 24 16) PROTO_TCP
      ((withChecksum6 l4 q).drop l4) = 0 := by
  have hsub : ∀ v i, i + 16 ≤ 40 → sub (put16 q (l4 + 16) v) i 16 = sub q i 16 := by
    intro v i hi
    rw [put16, sub_writeAt_of_disjoint (.inl (by omega))]
  have hpseudo : ∀ v, l4Sum6 PROTO_TCP l4 (put16 q (l4 + 16) v)
      = wordSum (sub q 8 16) + wordSum (sub q 24 16) + wordSum (lenWords (q.length - l4))
        + PROTO_TCP.toNat + wordSum (put16 (q.drop l4) 16 v) := by
    intro v
    rw [l4Sum6, drop_put16, length_put16, hsub _ 8 (by omega), hsub _ 24 (by omega)]
  rw [withChecksum6, checksum16Ipv6_eq _ (by rwa [length_put16]), hpseudo, fullL4Checksum6, hpseudo]
  exact Nat64.finish_recomputed PROTO_TCP .v6 _ rfl (by rw [List.length_drop]; omega)

end

/-! ## Addresses and ports -/

/-- The address a decision gives in place of another. -/
def natAddr {n : ℕ} (new : Option (Fin n → UInt8)) (old : Fin n → UInt8) : Fin n → UInt8 :=
  new.getD old

/-- The port a segment is sent with: NAT over the expected port over the one on the wire. -/
def sentPort (nat expected : Option UInt16) (wire : UInt16) : UInt16 :=
  nat.getD (expected.getD wire)

section

variable {p : Bytes} {plan : SegmentPlan} {nat : NatDecision} {skipTtl : Bool} {len : UInt16}

theorem byteAt_setAddr_self {n i : ℕ} (addr : Option (Fin n → UInt8)) (k : Fin n)
    (h : i + n ≤ p.length) :
    byteAt (setAddr i addr p) (i + k) = natAddr addr (fun k => byteAt p (i + k)) k := by
  have hk := k.isLt
  cases addr with
  | none => rfl
  | some a =>
    rw [setAddr, byteAt_writeAt, if_pos ⟨by omega, by rw [List.length_ofFn]; omega, by omega⟩,
      Nat.add_sub_cancel_left, byteAt, List.getD_eq_getElem _ _ (by rw [List.length_ofFn]; exact hk),
      List.getElem_ofFn]
    rfl

theorem get16_setWord_self {off : ℕ} (v : Option UInt16) (h : off + 2 ≤ p.length) :
    get16 (setWord off v p) off = v.getD (get16 p off) := by
  cases v with
  | none => rfl
  | some w => exact get16_put16 w h

/-- The ports of a TCP packet after NAT. -/
theorem get16_natL4Fields (nat : NatDecision) {l4 : ℕ} (h : l4 + 4 ≤ p.length) :
    get16 (natL4Fields PROTO_TCP nat l4 p) l4 = nat.rewriteSrcPort.getD (get16 p l4)
      ∧ get16 (natL4Fields PROTO_TCP nat l4 p) (l4 + 2)
        = nat.rewriteDstPort.getD (get16 p (l4 + 2)) := by
  have hports : hasL4Ports PROTO_TCP = true := rfl
  rw [natL4Fields, if_pos hports, natPorts]
  constructor
  · rw [get16_setWord_of_disjoint _ (by omega), get16_setWord_self _ (by omega)]
  · rw [get16_setWord_self _ (by rw [length_setWord]; omega), get16_setWord_of_disjoint _ (by omega)]

theorem get16_setPorts (ports : Option (UInt16 × UInt16)) {l4 : ℕ} (h : l4 + 4 ≤ p.length) :
    get16 (setPorts ports l4 p) l4 = (ports.map Prod.fst).getD (get16 p l4)
      ∧ get16 (setPorts ports l4 p) (l4 + 2) = (ports.map Prod.snd).getD (get16 p (l4 + 2)) := by
  rw [setPorts]
  constructor
  · rw [get16_setWord_of_disjoint _ (by omega), get16_setWord_self _ (by omega)]
  · rw [get16_setWord_self _ (by rw [length_setWord]; omega), get16_setWord_of_disjoint _ (by omega)]

/-- The ports and addresses of a packet both families emit, with the length field at `o`, the
TTL at `t` and the two addresses from `a` on. -/
theorem tuple_sent {n : ℕ} (o t a l4 : ℕ) (src dst : Option (Fin n → UInt8)) (nat : NatDecision)
    (ports : Option (UInt16 × UInt16)) (skipTtl : Bool) (len : UInt16) (hfront : o + 2 ≤ a ∧ t < a)
    (hl4 : a + n + n ≤ l4) (hlen : l4 + 4 ≤ p.length) {y : Bytes}
    (hy : y = ttlDown skipTtl t (natL4Fields PROTO_TCP nat l4
      (setAddr (a + n) dst (setAddr a src (setPorts ports l4 (put16 p o len)))))) :
    get16 y l4 = sentPort nat.rewriteSrcPort (ports.map Prod.fst) (get16 p l4)
      ∧ get16 y (l4 + 2) = sentPort nat.rewriteDstPort (ports.map Prod.snd) (get16 p (l4 + 2))
      ∧ (∀ k : Fin n, byteAt y (a + k) = natAddr src (fun k => byteAt p (a + k)) k)
      ∧ ∀ k : Fin n, byteAt y (a + n + k) = natAddr dst (fun k => byteAt p (a + n + k)) k := by
  -- the ports are behind the addresses, the addresses behind the length field and the TTL
  obtain ⟨hsrc, hdst⟩ := get16_setPorts (p := put16 p o len) ports
    (show l4 + 4 ≤ _ by rwa [length_put16])
  rw [get16_put16_of_disjoint (by omega)] at hsrc hdst
  have hlenx : (setPorts ports l4 (put16 p o len)).length = p.length := by
    rw [length_setPorts, length_put16]
  have hx : ∀ i, a ≤ i → i < l4 → byteAt (setPorts ports l4 (put16 p o len)) i = byteAt p i := by
    intro i h1 h2
    rw [byteAt_setPorts (by omega), byteAt_put16_of_disjoint (by omega)]
  generalize setPorts ports l4 (put16 p o len) = x at hy hsrc hdst hlenx hx
  obtain ⟨hsrc', hdst'⟩ := get16_natL4Fields (p := setAddr (a + n) dst (setAddr a src x)) nat
    (show l4 + 4 ≤ _ by rw [length_setAddr, length_setAddr]; omega)
  refine ⟨?_, ?_, ?_, ?_⟩
  · rw [hy, get16_ttlDown (by omega), hsrc', get16_setAddr_of_disjoint _ (by omega),
      get16_setAddr_of_disjoint _ (by omega), hsrc, sentPort]
  · rw [hy, get16_ttlDown (by omega), hdst', get16_setAddr_of_disjoint _ (by omega),
      get16_setAddr_of_disjoint _ (by omega), hdst, sentPort]
  · intro k
    have hk := k.isLt
    have hold : (fun k : Fin n => byteAt x (a + k)) = fun k : Fin n => byteAt p (a + k) := by
      funext j
      exact hx _ (by omega) (by omega)
    rw [hy, byteAt_ttlDown (by omega), byteAt_natL4Fields (by omega),
      byteAt_setAddr_of_disjoint _ (by omega), byteAt_setAddr_self _ _ (by omega), hold]
  · intro k
    have hk := k.isLt
    have hold : (fun k : Fin n => byteAt (setAddr a src x) (a + n + k))
        = fun k : Fin n => byteAt p (a + n + k) := by
      funext j
      rw [byteAt_setAddr_of_disjoint _ (by omega), hx _ (by omega) (by omega)]
    rw [hy, byteAt_ttlDown (by omega), byteAt_natL4Fields (by omega),
      byteAt_setAddr_self _ _ (by rw [length_setAddr]; omega), hold]

end

/-! ## A segment -/

/-- The fields `finalize_tcp_segment_headers` writes. -/
def Repaired (addrFamily : UInt8) (l4 i : ℕ) : Prop :=
  (addrFamily = AF_INET ∧ 4 ≤ i ∧ i < 6) ∨ (l4 + 4 ≤ i ∧ i < l4 + 8) ∨ i = l4 + 13
    ∨ (l4 + 18 ≤ i ∧ i < l4 + 20)

/-- The IPv4 header of segment `k`. -/
structure Ipv4Segment (plan : SegmentPlan) (skipTtl : Bool) (nat : NatDecision) (k : ℕ)
    (packet : Bytes) : Prop where
  totalLen : (get16 packet 2).toNat = packet.length
  id : get16 packet 4 = if byteAt plan.payload 6 &&& 0x40 = 0 then
    get16 plan.payload 4 + UInt16.ofNat k else get16 plan.payload 4
  ttl : byteAt packet 8 = if skipTtl then byteAt plan.payload 8 else byteAt plan.payload 8 - 1
  src : ipv4At packet 12 = natAddr (ipv4Of nat.rewriteSrc) (ipv4At plan.payload 12)
  dst : ipv4At packet 16 = natAddr (ipv4Of nat.rewriteDst) (ipv4At plan.payload 16)
  header : checksum16 (packet.take plan.ipHeaderLen) = 0
  tcp : checksum16Ipv4 (sub packet 12 4) (sub packet 16 4) PROTO_TCP
    (packet.drop plan.ipHeaderLen) = 0

/-- The IPv6 header of a segment. -/
structure Ipv6Segment (plan : SegmentPlan) (skipTtl : Bool) (nat : NatDecision)
    (packet : Bytes) : Prop where
  payloadLen : 40 + (get16 packet 4).toNat = packet.length
  hopLimit : byteAt packet 7 = if skipTtl then byteAt plan.payload 7 else byteAt plan.payload 7 - 1
  src : ipv6At packet 8 = natAddr (ipv6Of nat.rewriteSrc) (ipv6At plan.payload 8)
  dst : ipv6At packet 24 = natAddr (ipv6Of nat.rewriteDst) (ipv6At plan.payload 24)
  tcp : checksum16Ipv6 (sub packet 8 16) (sub packet 24 16) PROTO_TCP
    (packet.drop plan.ipHeaderLen) = 0

/-- Segment `k` of a datagram, in the fields a receiver reads. -/
structure IsSegment (plan : SegmentPlan) (fpm : ForwardPacketMeta) (nat : NatDecision) (k : ℕ)
    (isLast : Bool) (packet : Bytes) : Prop where
  data : packet.drop plan.headersLen
    = sub plan.data (k * plan.segmentPayloadMax) plan.segmentPayloadMax
  /-- Everything that is neither forwarded nor repaired is cloned, options included. -/
  cloned : ∀ i, i < plan.headersLen → ¬Forwarded fpm.addrFamily plan.ipHeaderLen i →
    ¬Repaired fpm.addrFamily plan.ipHeaderLen i → byteAt packet i = byteAt plan.payload i
  seq : get32 packet (plan.ipHeaderLen + 4)
    = plan.originalSeq + UInt32.ofNat (k * plan.segmentPayloadMax)
  pushed : byteAt packet (plan.ipHeaderLen + 13) &&& (TCP_FLAG_PSH ||| TCP_FLAG_FIN)
    = if isLast then byteAt plan.payload (plan.ipHeaderLen + 13) &&& (TCP_FLAG_PSH ||| TCP_FLAG_FIN)
      else 0
  reduced : byteAt packet (plan.ipHeaderLen + 13) &&& TCP_FLAG_CWR
    = if k = 0 then byteAt plan.payload (plan.ipHeaderLen + 13) &&& TCP_FLAG_CWR else 0
  kept : byteAt packet (plan.ipHeaderLen + 13) &&& TCP_FLAGS_KEPT
    = byteAt plan.payload (plan.ipHeaderLen + 13) &&& TCP_FLAGS_KEPT
  /-- A segment is urgent up to the urgent point, which stays where it was in the stream. -/
  urgent : byteAt packet (plan.ipHeaderLen + 13) &&& TCP_FLAG_URG
    = if k * plan.segmentPayloadMax ≤ (get16 plan.payload (plan.ipHeaderLen + 18)).toNat then
        byteAt plan.payload (plan.ipHeaderLen + 13) &&& TCP_FLAG_URG else 0
  urgentPoint : byteAt packet (plan.ipHeaderLen + 13) &&& TCP_FLAG_URG ≠ 0 →
    get32 packet (plan.ipHeaderLen + 4)
        + UInt32.ofNat (get16 packet (plan.ipHeaderLen + 18)).toNat
      = plan.originalSeq + UInt32.ofNat (get16 plan.payload (plan.ipHeaderLen + 18)).toNat
  srcPort : get16 packet plan.ipHeaderLen
    = sentPort nat.rewriteSrcPort (plan.enforcedPorts.map Prod.fst)
      (get16 plan.payload plan.ipHeaderLen)
  dstPort : get16 packet (plan.ipHeaderLen + 2)
    = sentPort nat.rewriteDstPort (plan.enforcedPorts.map Prod.snd)
      (get16 plan.payload (plan.ipHeaderLen + 2))
  v4 : fpm.addrFamily = AF_INET → Ipv4Segment plan (fabricIngress fpm) nat k packet
  v6 : fpm.addrFamily = AF_INET6 → Ipv6Segment plan (fabricIngress fpm) nat packet

section

variable {fpm : ForwardPacketMeta} {decision : SessionDecision} {mtu : ℕ} {plan : SegmentPlan}
  {dataOffset : ℕ} {segmentIndex : UInt16} {len16 : ℕ → UInt16} {nat : NatDecision}

/-- The data of a datagram is shorter than a length field can say. -/
theorem Planned.length_data_le (h : Planned fpm decision mtu plan) :
    plan.data.length ≤ 65535 ∧ plan.payload.length ≤ 65575 := by
  have hdata := h.length_data
  have hip := h.ipHeader
  have htcp := h.tcpHeader
  rw [SegmentPlan.headersLen] at hdata
  rcases h.family with ⟨-, -, -, hmax⟩ | ⟨-, h40, -, -, hmax⟩ <;> omega

/-- Outside what it is forwarded by, a packet is its draft. -/
theorem Planned.byteAt_packet (h : Planned fpm decision mtu plan)
    (hoff : dataOffset ≤ plan.data.length) {i : ℕ}
    (hi : ¬Forwarded fpm.addrFamily plan.ipHeaderLen i) :
    byteAt (segmentPacket len16 plan fpm nat dataOffset segmentIndex) i
      = byteAt (segmentDraft plan fpm.addrFamily dataOffset segmentIndex) i := by
  rw [Forwarded, not_or] at hi
  rw [segmentPacket]
  rcases h.family with ⟨hv4, -⟩ | ⟨hv6, h40, -⟩
  · rw [if_pos hv4] at hi
    rw [if_pos hv4, byteAt_withChecksums4 (by omega) (by omega),
      byteAt_emitted4 (h.emits4 hv4 hoff) (by omega) (by omega)]
  · have hv4 : fpm.addrFamily ≠ AF_INET := by
      rw [hv6]
      decide
    rw [if_neg hv4] at hi
    rw [if_neg hv4, byteAt_withChecksum6 (by omega), byteAt_emitted6 (by omega) (by omega)]

/-- The TCP part of a draft. -/
def draftTcp (plan : SegmentPlan) (dataOffset : ℕ) (segmentIndex : UInt16) : Bytes :=
  let tcp := plan.payload.drop plan.ipHeaderLen
  stamped (tcp.take plan.tcpHeaderLen ++ sub plan.data dataOffset (plan.chunkLen dataOffset))
    (plan.originalSeq + UInt32.ofNat dataOffset)
    (segmentFlags dataOffset (segmentIndex = 0)
      (dataOffset + plan.chunkLen dataOffset = plan.data.length) (get16 tcp 18) (byteAt tcp 13))
    (segmentUrgPtr dataOffset (segmentIndex = 0) (get16 tcp 18) (byteAt tcp 13))

theorem Planned.byteAt_draft_tcp (h : Planned fpm decision mtu plan) (addrFamily : UInt8) (j : ℕ) :
    byteAt (segmentDraft plan addrFamily dataOffset segmentIndex) (plan.ipHeaderLen + j)
      = byteAt (draftTcp plan dataOffset segmentIndex) j := by
  have hlen := length_put16 (plan.payload.take plan.ipHeaderLen) 4
    (segmentId addrFamily segmentIndex (plan.payload.take plan.ipHeaderLen))
  rw [h.length_ip] at hlen
  rw [segmentDraft, draftTcp]
  generalize put16 (plan.payload.take plan.ipHeaderLen) 4 _ = ip at hlen
  rw [← hlen, byteAt_append_right]

/-- The TCP header of a draft is that of the datagram outside the stamped fields, and the chunk
follows it. -/
theorem Planned.byteAt_draftTcp (h : Planned fpm decision mtu plan) {j : ℕ}
    (hj : j < 4 ∨ (8 ≤ j ∧ j ≠ 13 ∧ j < 18) ∨ 20 ≤ j) :
    byteAt (draftTcp plan dataOffset segmentIndex) j
      = if j < plan.tcpHeaderLen then byteAt plan.payload (plan.ipHeaderLen + j)
        else byteAt (sub plan.data dataOffset (plan.chunkLen dataOffset)) (j - plan.tcpHeaderLen) := by
  have htcp := h.length_tcp
  rw [draftTcp, byteAt_stamped hj]
  by_cases hlt : j < plan.tcpHeaderLen
  · rw [if_pos hlt, byteAt_append_left (by omega), byteAt_take hlt, byteAt_drop]
  · rw [if_neg hlt]
    generalize (plan.payload.drop plan.ipHeaderLen).take plan.tcpHeaderLen = tcp at htcp
    rw [← htcp] at hlt ⊢
    obtain ⟨i, rfl⟩ := Nat.exists_eq_add_of_le (Nat.not_lt.mp hlt)
    rw [byteAt_append_right, Nat.add_sub_cancel_left]

theorem Planned.length_packet (h : Planned fpm decision mtu plan)
    (hoff : dataOffset ≤ plan.data.length) (len16 : ℕ → UInt16) (nat : NatDecision)
    (segmentIndex : UInt16) :
    (segmentPacket len16 plan fpm nat dataOffset segmentIndex).length
      = plan.totalIpLen dataOffset := by
  have hlen := h.length_draft hoff fpm.addrFamily segmentIndex
  rw [segmentPacket]
  split_ifs
  · rw [withChecksums4, length_put16, length_put16, length_emitted4, hlen]
  · rw [withChecksum6, length_put16, length_emitted6, hlen]

/-- The data of a packet is its chunk. -/
theorem Planned.drop_packet (h : Planned fpm decision mtu plan)
    (hoff : dataOffset ≤ plan.data.length) (segmentIndex : UInt16) :
    (segmentPacket len16 plan fpm nat dataOffset segmentIndex).drop plan.headersLen
      = sub plan.data dataOffset (plan.chunkLen dataOffset) := by
  have hlen := h.length_packet hoff len16 nat segmentIndex
  have hchunk := length_chunk hoff
  have hip := h.ipHeader
  have htcp := h.tcpHeader
  apply ext
  · rw [List.length_drop, hlen, hchunk, SegmentPlan.totalIpLen]
    omega
  · intro j hj
    -- behind the headers nothing is forwarded or stamped
    have hfar : ¬Forwarded fpm.addrFamily plan.ipHeaderLen (plan.headersLen + j) := by
      rw [Forwarded, SegmentPlan.headersLen]
      rcases h.family with ⟨hv4, -⟩ | ⟨hv6, h40, -⟩
      · rw [if_pos hv4]
        omega
      · rw [if_neg (by rw [hv6]; decide)]
        omega
    rw [byteAt_drop, h.byteAt_packet hoff hfar, SegmentPlan.headersLen, Nat.add_assoc,
      h.byteAt_draft_tcp, h.byteAt_draftTcp (by omega), if_neg (by omega), Nat.add_sub_cancel_left]

/-- The Identification of an IPv4 draft. -/
theorem Planned.id_draft (h : Planned fpm decision mtu plan) (dataOffset : ℕ)
    (segmentIndex : UInt16) :
    get16 (segmentDraft plan AF_INET dataOffset segmentIndex) 4
      = if byteAt plan.payload 6 &&& 0x40 = 0 then get16 plan.payload 4 + segmentIndex
        else get16 plan.payload 4 := by
  have hip := h.length_ip
  have h20 := h.ipHeader
  have hflags : byteAt (plan.payload.take plan.ipHeaderLen) 6 = byteAt plan.payload 6 :=
    byteAt_take (by omega)
  have hold : get16 (plan.payload.take plan.ipHeaderLen) 4 = get16 plan.payload 4 :=
    get16_take (by omega)
  have hput : get16 (segmentDraft plan AF_INET dataOffset segmentIndex) 4
      = segmentId AF_INET segmentIndex (plan.payload.take plan.ipHeaderLen) := by
    rw [segmentDraft, get16, byteAt_append_left (by rw [length_put16]; omega),
      byteAt_append_left (by rw [length_put16]; omega), ← get16]
    exact get16_put16 _ (by omega)
  rw [hput, segmentId, hflags, hold]
  by_cases hdf : byteAt plan.payload 6 &&& 0x40 = 0
  · rw [if_pos ⟨rfl, hdf⟩, if_pos hdf]
  · rw [if_neg (fun hn => hdf hn.2), if_neg hdf]

theorem get16_withChecksums4 {q : Bytes} {l4 i : ℕ} (h : i < 9 ∨ 12 ≤ i)
    (h' : i + 2 ≤ l4 + 16 ∨ l4 + 18 ≤ i) : get16 (withChecksums4 l4 q) i = get16 q i := by
  rw [get16, byteAt_withChecksums4 (by omega) (by omega), byteAt_withChecksums4 (by omega) (by omega),
    get16]

theorem ipv4At_withChecksums4 {q : Bytes} {l4 i : ℕ} (h : 12 ≤ i) (h' : i + 4 ≤ l4 + 16) :
    ipv4At (withChecksums4 l4 q) i = ipv4At q i := by
  funext j
  have hj := j.isLt
  exact byteAt_withChecksums4 (by omega) (by omega)

theorem ipv6At_withChecksum6 {q : Bytes} {l4 i : ℕ} (h : i + 16 ≤ l4 + 16) :
    ipv6At (withChecksum6 l4 q) i = ipv6At q i := by
  funext j
  have hj := j.isLt
  exact byteAt_withChecksum6 (by omega)

theorem get16_withChecksum6 {q : Bytes} {l4 i : ℕ} (h : i + 2 ≤ l4 + 16) :
    get16 (withChecksum6 l4 q) i = get16 q i := by
  rw [get16, byteAt_withChecksum6 (by omega), byteAt_withChecksum6 (by omega), get16]

/-- The length field and the TTL of an IPv4 segment. -/
theorem Emits4.len_ttl {p : Bytes} (h : Emits4 plan p) (skipTtl : Bool) (nat : NatDecision)
    (len : UInt16) :
    get16 (emitted4 plan skipTtl nat len p) 2 = len
      ∧ byteAt (emitted4 plan skipTtl nat len p) 8
        = if skipTtl then byteAt p 8 else byteAt p 8 - 1 := by
  have h20 := h.header
  have hl4 := h.l4
  have hihl := ipv4Ihl_ports h len
  have hfront : ∀ i, i < 12 →
      byteAt (natFields4 PROTO_TCP (inForce plan.eth.applyNat nat)
        (setPorts plan.enforcedPorts plan.ipHeaderLen (put16 p 2 len))) i
      = byteAt (put16 p 2 len) i := by
    intro i hi
    rw [byteAt_natFields4 (by omega) (.inl hi), byteAt_setPorts (by omega)]
  constructor
  · rw [emitted4, get16_ttlDown (by omega), get16, hfront 2 (by omega), hfront 3 (by omega), ← get16]
    exact get16_put16 _ (by omega)
  · rw [emitted4, byteAt_ttlDown_self (by rw [length_natFields4, length_setPorts, length_put16]; omega),
      hfront 8 (by omega), byteAt_put16_of_disjoint (by omega)]

/-- The ports and addresses of an IPv4 segment. -/
theorem Emits4.tuple {p : Bytes} (h : Emits4 plan p) (skipTtl : Bool) (nat : NatDecision)
    (len : UInt16) :
    get16 (emitted4 plan skipTtl nat len p) plan.ipHeaderLen
        = sentPort (inForce plan.eth.applyNat nat).rewriteSrcPort (plan.enforcedPorts.map Prod.fst)
          (get16 p plan.ipHeaderLen)
      ∧ get16 (emitted4 plan skipTtl nat len p) (plan.ipHeaderLen + 2)
        = sentPort (inForce plan.eth.applyNat nat).rewriteDstPort (plan.enforcedPorts.map Prod.snd)
          (get16 p (plan.ipHeaderLen + 2))
      ∧ ipv4At (emitted4 plan skipTtl nat len p) 12
        = natAddr (ipv4Of (inForce plan.eth.applyNat nat).rewriteSrc) (ipv4At p 12)
      ∧ ipv4At (emitted4 plan skipTtl nat len p) 16
        = natAddr (ipv4Of (inForce plan.eth.applyNat nat).rewriteDst) (ipv4At p 16) := by
  have h20 := h.header
  have hl4 := h.l4
  obtain ⟨hsp, hdp, hsrc, hdst⟩ := tuple_sent (y := emitted4 plan skipTtl nat len p) 2 8 12 plan.ipHeaderLen
    (ipv4Of (inForce plan.eth.applyNat nat).rewriteSrc)
    (ipv4Of (inForce plan.eth.applyNat nat).rewriteDst) (inForce plan.eth.applyNat nat)
    plan.enforcedPorts skipTtl len (by omega) (by omega) (show plan.ipHeaderLen + 4 ≤ p.length by omega)
    (by rw [emitted4, natFields4, ipv4Ihl_ports h])
  exact ⟨hsp, hdp, funext hsrc, funext hdst⟩

/-- The ports and addresses of an IPv6 segment. -/
theorem Emits6.tuple {p : Bytes} (h : Emits6 plan p) (skipTtl : Bool) (nat : NatDecision)
    (len : UInt16) :
    get16 (emitted6 plan skipTtl nat len p) plan.ipHeaderLen
        = sentPort (inForce plan.eth.applyNat nat).rewriteSrcPort (plan.enforcedPorts.map Prod.fst)
          (get16 p plan.ipHeaderLen)
      ∧ get16 (emitted6 plan skipTtl nat len p) (plan.ipHeaderLen + 2)
        = sentPort (inForce plan.eth.applyNat nat).rewriteDstPort (plan.enforcedPorts.map Prod.snd)
          (get16 p (plan.ipHeaderLen + 2))
      ∧ ipv6At (emitted6 plan skipTtl nat len p) 8
        = natAddr (ipv6Of (inForce plan.eth.applyNat nat).rewriteSrc) (ipv6At p 8)
      ∧ ipv6At (emitted6 plan skipTtl nat len p) 24
        = natAddr (ipv6Of (inForce plan.eth.applyNat nat).rewriteDst) (ipv6At p 24) := by
  have h40 := h.header
  have hl4 := h.l4
  obtain ⟨hsp, hdp, hsrc, hdst⟩ := tuple_sent (y := emitted6 plan skipTtl nat len p) 4 7 8 plan.ipHeaderLen
    (ipv6Of (inForce plan.eth.applyNat nat).rewriteSrc)
    (ipv6Of (inForce plan.eth.applyNat nat).rewriteDst) (inForce plan.eth.applyNat nat)
    plan.enforcedPorts skipTtl len (by omega) (by omega) (show plan.ipHeaderLen + 4 ≤ p.length by omega)
    (by rw [emitted6, natFields6])
  exact ⟨hsp, hdp, funext hsrc, funext hdst⟩

/-- The length field and the hop limit of an IPv6 segment. -/
theorem Emits6.len_hopLimit {p : Bytes} (h : Emits6 plan p) (skipTtl : Bool) (nat : NatDecision)
    (len : UInt16) :
    get16 (emitted6 plan skipTtl nat len p) 4 = len
      ∧ byteAt (emitted6 plan skipTtl nat len p) 7
        = if skipTtl then byteAt p 7 else byteAt p 7 - 1 := by
  have h40 := h.header
  have hl4 := h.l4
  have hfront : ∀ i, i < 8 →
      byteAt (natFields6 plan.ipHeaderLen PROTO_TCP (inForce plan.eth.applyNat nat)
        (setPorts plan.enforcedPorts plan.ipHeaderLen (put16 p 4 len))) i
      = byteAt (put16 p 4 len) i := by
    intro i hi
    rw [byteAt_natFields6 h40 (.inl hi), byteAt_setPorts (by omega)]
  constructor
  · rw [emitted6, get16_ttlDown (by omega), get16, hfront 4 (by omega), hfront 5 (by omega), ← get16]
    exact get16_put16 _ (by omega)
  · rw [emitted6, byteAt_ttlDown_self (by rw [length_natFields6, length_setPorts, length_put16]; omega),
      hfront 7 (by omega), byteAt_put16_of_disjoint (by omega)]

/-- The IPv4 header of a packet. -/
theorem Planned.ipv4Segment (h : Planned fpm decision mtu plan) (hfam : fpm.addrFamily = AF_INET)
    (hlen16 : ∀ n < 65536, (len16 n).toNat = n) (hoff : dataOffset ≤ plan.data.length) (k : ℕ) :
    Ipv4Segment plan (fabricIngress fpm) (inForce plan.eth.applyNat nat) k
      (segmentPacket len16 plan fpm nat dataOffset (UInt16.ofNat k)) := by
  have hemits : Emits4 plan (segmentDraft plan fpm.addrFamily dataOffset (UInt16.ofNat k)) :=
    h.emits4 hfam hoff
  have h20 := h.ipHeader
  have hpay := h.length_data
  have hlen := h.length_draft hoff fpm.addrFamily (UInt16.ofNat k)
  have hid := h.id_draft dataOffset (UInt16.ofNat k)
  have hpacket := h.length_packet hoff len16 nat (UInt16.ofNat k)
  have hsmall : plan.totalIpLen dataOffset ≤ 65535 := by
    rcases h.family with ⟨-, -, -, hmax4⟩ | ⟨hv6, -⟩
    · rw [SegmentPlan.totalIpLen, SegmentPlan.chunkLen]
      omega
    · rw [hfam] at hv6
      cases hv6
  have hdraft : ∀ i, i < plan.ipHeaderLen → 6 ≤ i →
      byteAt (segmentDraft plan fpm.addrFamily dataOffset (UInt16.ofNat k)) i
        = byteAt plan.payload i := fun i h1 h2 => h.byteAt_draft fpm.addrFamily h1 (.inr h2)
  rw [← hfam] at hid
  rw [segmentPacket, if_pos hfam] at hpacket ⊢
  generalize segmentDraft plan fpm.addrFamily dataOffset (UInt16.ofNat k) = p at *
  obtain ⟨hlenField, httl⟩ := hemits.len_ttl (fabricIngress fpm) nat
    (len16 (plan.totalIpLen dataOffset))
  obtain ⟨-, -, hsrc, hdst⟩ := hemits.tuple (fabricIngress fpm) nat
    (len16 (plan.totalIpLen dataOffset))
  have hid4 : get16 (emitted4 plan (fabricIngress fpm) nat (len16 (plan.totalIpLen dataOffset)) p) 4
      = get16 p 4 := by
    rw [get16, byteAt_emitted4 hemits (by omega) (by omega),
      byteAt_emitted4 hemits (by omega) (by omega), get16]
  have hold : ∀ i, 6 ≤ i → i + 4 ≤ 20 → ipv4At p i = ipv4At plan.payload i := by
    intro i h1 h2
    funext j
    exact hdraft _ (by omega) (by omega)
  refine ⟨?_, ?_, ?_, ?_, ?_, ?_, ?_⟩
  · rw [hpacket, get16_withChecksums4 (by omega) (by omega), hlenField, hlen16 _ (by omega)]
  · rw [get16_withChecksums4 (by omega) (by omega), hid4, hid]
  · rw [byteAt_withChecksums4 (by omega) (by omega), httl, hdraft 8 (by omega) (by omega)]
  · rw [ipv4At_withChecksums4 (by omega) (by omega), hsrc, hold 12 (by omega) (by omega)]
  · rw [ipv4At_withChecksums4 (by omega) (by omega), hdst, hold 16 (by omega) (by omega)]
  · exact checksum16_withChecksums4 h20 (by rw [length_emitted4]; exact hemits.l4)
      (by rw [length_emitted4]; exact hemits.max)
  · exact checksum16Ipv4_withChecksums4 h20 (by rw [length_emitted4]; exact hemits.l4)
      (by rw [length_emitted4]; exact hemits.max)

/-- The IPv6 header of a packet. -/
theorem Planned.ipv6Segment (h : Planned fpm decision mtu plan) (hfam : fpm.addrFamily = AF_INET6)
    (hlen16 : ∀ n < 65536, (len16 n).toNat = n) (hoff : dataOffset ≤ plan.data.length)
    (segmentIndex : UInt16) :
    Ipv6Segment plan (fabricIngress fpm) (inForce plan.eth.applyNat nat)
      (segmentPacket len16 plan fpm nat dataOffset segmentIndex) := by
  have hv4 : fpm.addrFamily ≠ AF_INET := by
    rw [hfam]
    decide
  have hemits : Emits6 plan (segmentDraft plan fpm.addrFamily dataOffset segmentIndex) :=
    h.emits6 hfam hoff
  have h40 := hemits.header
  have hpay := h.length_data
  have hmax := h.length_data_le
  have hlen := h.length_draft hoff fpm.addrFamily segmentIndex
  have hpacket := h.length_packet hoff len16 nat segmentIndex
  have htotal : 40 + (plan.ipHeaderLen - 40 + plan.tcpHeaderLen + plan.chunkLen dataOffset)
      = plan.totalIpLen dataOffset := by
    rw [SegmentPlan.totalIpLen, SegmentPlan.headersLen]
    omega
  have hsmall : plan.totalIpLen dataOffset ≤ 65575 := by
    rw [SegmentPlan.totalIpLen, SegmentPlan.chunkLen]
    omega
  have hdraft : ∀ i, i < plan.ipHeaderLen → 6 ≤ i →
      byteAt (segmentDraft plan fpm.addrFamily dataOffset segmentIndex) i
        = byteAt plan.payload i := fun i h1 h2 => h.byteAt_draft fpm.addrFamily h1 (.inr h2)
  rw [segmentPacket, if_neg hv4] at hpacket ⊢
  generalize segmentDraft plan fpm.addrFamily dataOffset segmentIndex = p at *
  obtain ⟨hlenField, hhop⟩ := hemits.len_hopLimit (fabricIngress fpm) nat
    (len16 (plan.ipHeaderLen - 40 + plan.tcpHeaderLen + plan.chunkLen dataOffset))
  obtain ⟨-, -, hsrc, hdst⟩ := hemits.tuple (fabricIngress fpm) nat
    (len16 (plan.ipHeaderLen - 40 + plan.tcpHeaderLen + plan.chunkLen dataOffset))
  have hold : ∀ i, 6 ≤ i → i + 16 ≤ 40 → ipv6At p i = ipv6At plan.payload i := by
    intro i h1 h2
    funext j
    exact hdraft _ (by omega) (by omega)
  refine ⟨?_, ?_, ?_, ?_, ?_⟩
  · rw [hpacket, get16_withChecksum6 (by omega), hlenField, hlen16 _ (by omega), htotal]
  · rw [byteAt_withChecksum6 (by omega), hhop, hdraft 7 (by omega) (by omega)]
  · rw [ipv6At_withChecksum6 (by omega), hsrc, hold 8 (by omega) (by omega)]
  · rw [ipv6At_withChecksum6 (by omega), hdst, hold 24 (by omega) (by omega)]
  · exact checksum16Ipv6_withChecksum6 h40 (by rw [length_emitted6]; exact hemits.l4)
      (by rw [length_emitted6]; exact hemits.max)

/-- The TCP header of a packet, outside the ports and the checksum. -/
theorem Planned.byteAt_packet_tcp (h : Planned fpm decision mtu plan)
    (hoff : dataOffset ≤ plan.data.length) {j : ℕ} (hj : (4 ≤ j ∧ j < 16) ∨ 18 ≤ j) :
    byteAt (segmentPacket len16 plan fpm nat dataOffset segmentIndex) (plan.ipHeaderLen + j)
      = byteAt (draftTcp plan dataOffset segmentIndex) j := by
  have h20 := h.ipHeader
  have hno : ¬Forwarded fpm.addrFamily plan.ipHeaderLen (plan.ipHeaderLen + j) := by
    rw [Forwarded]
    rcases h.family with ⟨hv4, -⟩ | ⟨hv6, h40, -⟩
    · rw [if_pos hv4]
      omega
    · rw [if_neg (by rw [hv6]; decide)]
      omega
  rw [h.byteAt_packet hoff hno, h.byteAt_draft_tcp]

theorem Planned.get16_packet_tcp (h : Planned fpm decision mtu plan)
    (hoff : dataOffset ≤ plan.data.length) {j : ℕ} (hj : (4 ≤ j ∧ j + 2 ≤ 16) ∨ 18 ≤ j) :
    get16 (segmentPacket len16 plan fpm nat dataOffset segmentIndex) (plan.ipHeaderLen + j)
      = get16 (draftTcp plan dataOffset segmentIndex) j := by
  rw [get16, Nat.add_assoc, h.byteAt_packet_tcp hoff (by omega), h.byteAt_packet_tcp hoff (by omega),
    get16]

/-- The ports of a packet. -/
theorem Planned.ports_packet (h : Planned fpm decision mtu plan)
    (hoff : dataOffset ≤ plan.data.length) (segmentIndex : UInt16) :
    get16 (segmentPacket len16 plan fpm nat dataOffset segmentIndex) plan.ipHeaderLen
        = sentPort (inForce plan.eth.applyNat nat).rewriteSrcPort (plan.enforcedPorts.map Prod.fst)
          (get16 plan.payload plan.ipHeaderLen)
      ∧ get16 (segmentPacket len16 plan fpm nat dataOffset segmentIndex) (plan.ipHeaderLen + 2)
        = sentPort (inForce plan.eth.applyNat nat).rewriteDstPort (plan.enforcedPorts.map Prod.snd)
          (get16 plan.payload (plan.ipHeaderLen + 2)) := by
  have htcp := h.tcpHeader
  have h20 := h.ipHeader
  -- the ports are in front of the stamped fields
  have hport : ∀ j, j + 2 ≤ 4 →
      get16 (segmentDraft plan fpm.addrFamily dataOffset segmentIndex) (plan.ipHeaderLen + j)
        = get16 plan.payload (plan.ipHeaderLen + j) := by
    intro j hj
    rw [get16, Nat.add_assoc, h.byteAt_draft_tcp, h.byteAt_draft_tcp, h.byteAt_draftTcp (by omega),
      h.byteAt_draftTcp (by omega), if_pos (by omega), if_pos (by omega), get16, Nat.add_assoc]
  have hsrc := hport 0 (by omega)
  have hdst := hport 2 (by omega)
  rw [Nat.add_zero] at hsrc
  rw [segmentPacket]
  rcases h.family with ⟨hv4, -⟩ | ⟨hv6, h40, -⟩
  · obtain ⟨hsp, hdp, -, -⟩ := (h.emits4 hv4 hoff).tuple (fabricIngress fpm) nat
      (len16 (plan.totalIpLen dataOffset))
    rw [if_pos hv4, get16_withChecksums4 (by omega) (by omega),
      get16_withChecksums4 (by omega) (by omega), ← hsrc, ← hdst]
    exact ⟨hsp, hdp⟩
  · obtain ⟨hsp, hdp, -, -⟩ := (h.emits6 hv6 hoff).tuple (fabricIngress fpm) nat
      (len16 (plan.ipHeaderLen - 40 + plan.tcpHeaderLen + plan.chunkLen dataOffset))
    rw [if_neg (by rw [hv6]; decide), get16_withChecksum6 (by omega), get16_withChecksum6 (by omega),
      ← hsrc, ← hdst]
    exact ⟨hsp, hdp⟩

/-- Everything a packet does not change is the datagram's. -/
theorem Planned.cloned_packet (h : Planned fpm decision mtu plan)
    (hoff : dataOffset ≤ plan.data.length) {i : ℕ} (hi : i < plan.headersLen)
    (hfor : ¬Forwarded fpm.addrFamily plan.ipHeaderLen i)
    (hrep : ¬Repaired fpm.addrFamily plan.ipHeaderLen i) :
    byteAt (segmentPacket len16 plan fpm nat dataOffset segmentIndex) i = byteAt plan.payload i := by
  rw [SegmentPlan.headersLen] at hi
  rw [h.byteAt_packet hoff hfor]
  rw [Repaired] at hrep
  rcases Nat.lt_or_ge i plan.ipHeaderLen with hlt | hge
  · have hid : i < 4 ∨ 6 ≤ i := by
      by_contra hno
      rcases h.family with ⟨hv4, -⟩ | ⟨hv6, -⟩
      · exact hrep (.inl ⟨hv4, by omega, by omega⟩)
      · rw [Forwarded, if_neg (by rw [hv6]; decide)] at hfor
        omega
    exact h.byteAt_draft _ hlt hid
  · obtain ⟨j, rfl⟩ := Nat.exists_eq_add_of_le hge
    have hj : j < 4 ∨ (8 ≤ j ∧ j ≠ 13 ∧ j < 18) ∨ 20 ≤ j := by
      by_contra hno
      apply hrep
      omega
    rw [h.byteAt_draft_tcp, h.byteAt_draftTcp hj, if_pos (by omega)]

/-- **A segment is what a receiver expects it to be.** -/
theorem Planned.isSegment (h : Planned fpm decision mtu plan)
    (hlen16 : ∀ n < 65536, (len16 n).toNat = n) (nat : NatDecision) {k : ℕ}
    (hk : k * plan.segmentPayloadMax < plan.data.length) :
    IsSegment plan fpm (inForce plan.eth.applyNat nat) k
      (k * plan.segmentPayloadMax + plan.chunkLen (k * plan.segmentPayloadMax) = plan.data.length)
      (segmentPacket len16 plan fpm nat (k * plan.segmentPayloadMax) (UInt16.ofNat k)) := by
  have hoff := Nat.le_of_lt hk
  have hpos := h.pos
  have htcp := h.tcpHeader
  have hmax := h.length_data_le.1
  have hkle : k ≤ k * plan.segmentPayloadMax := Nat.le_mul_of_pos_right k hpos
  have hmod : k * plan.segmentPayloadMax % 2 ^ 32 = k * plan.segmentPayloadMax :=
    Nat.mod_eq_of_lt (by omega)
  have hfirst : UInt16.ofNat k = 0 ↔ k = 0 := by
    rw [← UInt16.toNat_inj, UInt16.toNat_ofNat', UInt16.toNat_zero, Nat.mod_eq_of_lt (by omega)]
  have hzero : UInt16.ofNat k = 0 → k * plan.segmentPayloadMax = 0 := by
    intro h0
    rw [hfirst.mp h0, Nat.zero_mul]
  -- the stamped fields, read behind the IP header
  have hlen20 : 20 ≤ ((plan.payload.drop plan.ipHeaderLen).take plan.tcpHeaderLen
      ++ sub plan.data (k * plan.segmentPayloadMax)
        (plan.chunkLen (k * plan.segmentPayloadMax))).length := by
    rw [List.length_append, h.length_tcp]
    omega
  have hflags : byteAt (segmentPacket len16 plan fpm nat (k * plan.segmentPayloadMax)
      (UInt16.ofNat k)) (plan.ipHeaderLen + 13) = _ :=
    (h.byteAt_packet_tcp hoff (by omega)).trans (byteAt_stamped_flags hlen20)
  have hurg : get16 (segmentPacket len16 plan fpm nat (k * plan.segmentPayloadMax)
      (UInt16.ofNat k)) (plan.ipHeaderLen + 18) = _ :=
    (h.get16_packet_tcp hoff (by omega)).trans (get16_stamped_urgPtr hlen20)
  have hseq : get32 (segmentPacket len16 plan fpm nat (k * plan.segmentPayloadMax)
      (UInt16.ofNat k)) (plan.ipHeaderLen + 4)
        = plan.originalSeq + UInt32.ofNat (k * plan.segmentPayloadMax) := by
    rw [get32, Nat.add_assoc, h.get16_packet_tcp hoff (by omega), h.get16_packet_tcp hoff (by omega)]
    exact get32_stamped hlen20
  rw [byteAt_drop, get16_drop] at hflags hurg
  have hchunk : sub plan.data (k * plan.segmentPayloadMax) (plan.chunkLen (k * plan.segmentPayloadMax))
      = sub plan.data (k * plan.segmentPayloadMax) plan.segmentPayloadMax := by
    rw [SegmentPlan.chunkLen, sub, sub, Nat.min_comm, ← List.length_drop, List.take_eq_take_iff]
    omega
  have hbit : byteAt (segmentPacket len16 plan fpm nat (k * plan.segmentPayloadMax)
      (UInt16.ofNat k)) (plan.ipHeaderLen + 13) &&& TCP_FLAG_URG
        = if k * plan.segmentPayloadMax ≤ (get16 plan.payload (plan.ipHeaderLen + 18)).toNat then
            byteAt plan.payload (plan.ipHeaderLen + 13) &&& TCP_FLAG_URG else 0 := by
    rw [hflags, segmentFlags_urgent, hmod]
    by_cases h0 : UInt16.ofNat k = 0
    · rw [if_pos (.inl (decide_eq_true h0)), if_pos (by rw [hzero h0]; exact Nat.zero_le _)]
    · rw [decide_eq_false h0]
      simp only [Bool.false_eq_true, false_or]
  refine ⟨?_, fun i hi hfor hrep => h.cloned_packet hoff hi hfor hrep, hseq, ?_, ?_, ?_, hbit, ?_,
    (h.ports_packet hoff _).1, (h.ports_packet hoff _).2,
    fun hfam => h.ipv4Segment hfam hlen16 hoff k, fun hfam => h.ipv6Segment hfam hlen16 hoff _⟩
  · rw [h.drop_packet hoff, hchunk]
  · rw [hflags, segmentFlags_pushed]
  · rw [hflags, segmentFlags_reduced]
    simp only [decide_eq_true_eq, hfirst]
  · rw [hflags, segmentFlags_kept]
  · intro hset
    rw [hbit] at hset
    have hle : k * plan.segmentPayloadMax ≤ (get16 plan.payload (plan.ipHeaderLen + 18)).toNat := by
      by_contra hno
      rw [if_neg hno] at hset
      exact hset rfl
    rw [if_pos hle] at hset
    rw [hseq, hurg]
    apply urgentPoint
    · omega
    · intro h0
      exact hzero (of_decide_eq_true h0)
    · exact hset
    · rw [hmod]
      exact .inr hle

end

end Xpf.Frames
