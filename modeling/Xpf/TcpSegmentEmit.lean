/-
One segment, as bytes.

Every step of `buildSegment` is a write at a known offset, so a segment has a closed form:
the headers of the datagram with the fields of `finalize_tcp_segment_headers` stamped into
them, the ports and addresses of the decision over that, the TTL one lower, and the two
checksums last. What a checksum field held on the way is overwritten at the end, which is
why the incremental updates of NAT leave no trace.
-/
import Xpf.TcpSegmentation
import Xpf.FrameForwarded
import Xpf.Nat64Sums

set_option autoImplicit false

namespace Xpf.Frames

open Xpf.ByteBuffer Xpf.Edits Xpf.Edits.Edit Xpf.OnesComplement Xpf.WordSums

/-! ## The stamped TCP header -/

/-- A TCP header with a sequence number, flags and an urgent pointer written into it. -/
def stamped (tcp : Bytes) (seq : UInt32) (flags : UInt8) (urgPtr : UInt16) : Bytes :=
  put16 (writeAt (writeAt tcp 4 (toBe32 seq)) 13 [flags]) 18 urgPtr

/-- The flags of a segment. -/
def segmentFlags (dataOffset : ℕ) (first isLast : Bool) (urgPtr : UInt16) (flags : UInt8) : UInt8 :=
  let flags := if isLast then flags else flags &&& ~~~(TCP_FLAG_PSH ||| TCP_FLAG_FIN)
  if first then flags
  else
    let flags := flags &&& ~~~TCP_FLAG_CWR
    if flags &&& TCP_FLAG_URG ≠ 0 ∧ urgPtr.toNat < dataOffset % 2 ^ 32 then
      flags &&& ~~~TCP_FLAG_URG
    else flags

/-- The urgent pointer of a segment. -/
def segmentUrgPtr (dataOffset : ℕ) (first : Bool) (urgPtr : UInt16) (flags : UInt8) : UInt16 :=
  if first ∨ flags &&& TCP_FLAG_URG = 0 then urgPtr
  else if dataOffset % 2 ^ 32 ≤ urgPtr.toNat then
    UInt16.ofNat (urgPtr.toNat - dataOffset % 2 ^ 32)
  else 0

section

variable {tcp : Bytes} {seq : UInt32} {flags : UInt8} {urgPtr : UInt16}

@[simp] theorem length_stamped (tcp : Bytes) (seq : UInt32) (flags : UInt8) (urgPtr : UInt16) :
    (stamped tcp seq flags urgPtr).length = tcp.length := by
  rw [stamped, length_put16, length_writeAt, length_writeAt]

@[simp] theorem length_toBe32 (v : UInt32) : (toBe32 v).length = 4 := rfl

theorem byteAt_stamped_flags (h : 20 ≤ tcp.length) :
    byteAt (stamped tcp seq flags urgPtr) 13 = flags := by
  rw [stamped, byteAt_put16_of_disjoint (by omega), byteAt_writeAt,
    if_pos ⟨le_rfl, by simp, by rw [length_writeAt]; omega⟩]
  rfl

theorem get16_stamped_urgPtr (h : 20 ≤ tcp.length) :
    get16 (stamped tcp seq flags urgPtr) 18 = urgPtr := by
  rw [stamped, get16_put16 _ (by rw [length_writeAt, length_writeAt]; omega)]

/-- A stamp changes nothing outside its three fields. -/
theorem byteAt_stamped {i : ℕ} (h : i < 4 ∨ (8 ≤ i ∧ i ≠ 13 ∧ i < 18) ∨ 20 ≤ i) :
    byteAt (stamped tcp seq flags urgPtr) i = byteAt tcp i := by
  rw [stamped, byteAt_put16_of_disjoint (by omega),
    byteAt_writeAt_of_disjoint (by rw [List.length_singleton]; omega),
    byteAt_writeAt_of_disjoint (by rw [length_toBe32]; omega)]

theorem clearTcpFlags_stamped (cleared : UInt8) (h : 20 ≤ tcp.length) :
    (clearTcpFlags cleared).run (stamped tcp seq flags urgPtr)
      = (some (), stamped tcp seq (flags &&& ~~~cleared) urgPtr) := by
  rw [clearTcpFlags, require_bind_run, if_pos (by rw [length_stamped]; omega), modify_run,
    byteAt_stamped_flags h, stamped, writeAt_put16_comm (by simp), writeAt_writeAt]
  · rfl
  · rfl

theorem writeWord_stamped (v : UInt16) (h : 20 ≤ tcp.length) :
    (writeWord 18 v).run (stamped tcp seq flags urgPtr)
      = (some (), stamped tcp seq flags v) := by
  rw [writeWord_run _ (by rw [length_stamped]; omega), stamped, put16_put16, stamped]

/-- A segment that starts with the sequence number only. -/
theorem stamped_seq (tcp : Bytes) (seq : UInt32) :
    writeAt tcp 4 (toBe32 seq) = stamped tcp seq (byteAt tcp 13) (get16 tcp 18) := by
  have hflags : byteAt (writeAt tcp 4 (toBe32 seq)) 13 = byteAt tcp 13 :=
    byteAt_writeAt_of_disjoint (by simp)
  have hurg : get16 (writeAt tcp 4 (toBe32 seq)) 18 = get16 tcp 18 :=
    get16_writeAt_of_disjoint (by simp)
  rw [stamped, writeAt_self (i := 13), ← hurg, put16_get16]
  intro k hk
  obtain rfl : k = 0 := by
    rw [List.length_singleton] at hk
    omega
  exact hflags.symm

/-- The urgent pointer and its flag, for a segment behind the first one. -/
theorem rebaseUrgentPointer_stamped (dataOffset : ℕ) (h : 20 ≤ tcp.length) :
    (rebaseUrgentPointer dataOffset).run (stamped tcp seq flags urgPtr)
      = (some (), stamped tcp seq
          (if flags &&& TCP_FLAG_URG ≠ 0 ∧ urgPtr.toNat < dataOffset % 2 ^ 32 then
            flags &&& ~~~TCP_FLAG_URG else flags)
          (segmentUrgPtr dataOffset false urgPtr flags)) := by
  rw [rebaseUrgentPointer, require_bind_run, if_pos (by rw [length_stamped]; omega), read_bind_run,
    byteAt_stamped_flags h, segmentUrgPtr]
  by_cases hurg : flags &&& TCP_FLAG_URG = 0
  · rw [if_neg (not_not.mpr hurg), if_neg (fun hn => hn.1 hurg), if_pos (.inr hurg), pure_run]
  · have hset : ¬(false = true ∨ flags &&& TCP_FLAG_URG = 0) := by simpa using hurg
    rw [if_pos hurg, require_bind_run, if_pos (by rw [length_stamped]; omega), read_bind_run,
      get16_stamped_urgPtr h, if_neg hset]
    by_cases hle : dataOffset % 2 ^ 32 ≤ urgPtr.toNat
    · rw [if_pos hle, if_pos hle, if_neg (fun hn => absurd hn.2 (Nat.not_lt.mpr hle)),
        writeWord_stamped _ h]
    · rw [if_neg hle, if_neg hle, if_pos ⟨hurg, Nat.not_le.mp hle⟩,
        bind_run_some (clearTcpFlags_stamped _ h), writeWord_stamped _ h]

/-- **The TCP part of `finalize_tcp_segment_headers`** is one stamp. -/
theorem finalizeTcpHeader_run (originalSeq : UInt32) (dataOffset : ℕ) (segmentIndex : UInt16)
    (isLast : Bool) (h : 20 ≤ tcp.length) :
    (finalizeTcpHeader originalSeq dataOffset segmentIndex isLast).run tcp
      = (some (), stamped tcp (originalSeq + UInt32.ofNat dataOffset)
          (segmentFlags dataOffset (segmentIndex = 0) isLast (get16 tcp 18) (byteAt tcp 13))
          (segmentUrgPtr dataOffset (segmentIndex = 0) (get16 tcp 18) (byteAt tcp 13))) := by
  -- the flag of the urgent pointer is none of those cleared before it is read
  have hurg : ∀ f : UInt8, f &&& ~~~(TCP_FLAG_PSH ||| TCP_FLAG_FIN) &&& ~~~TCP_FLAG_CWR
      &&& TCP_FLAG_URG = f &&& TCP_FLAG_URG := by
    intro f
    rw [UInt8.and_assoc, UInt8.and_assoc]
    rfl
  have hurg' : ∀ f : UInt8, f &&& ~~~TCP_FLAG_CWR &&& TCP_FLAG_URG = f &&& TCP_FLAG_URG := by
    intro f
    rw [UInt8.and_assoc]
    rfl
  have hclear : (doIf (!isLast) (clearTcpFlags (TCP_FLAG_PSH ||| TCP_FLAG_FIN))).run
      (stamped tcp (originalSeq + UInt32.ofNat dataOffset) (byteAt tcp 13) (get16 tcp 18))
      = (some (), stamped tcp (originalSeq + UInt32.ofNat dataOffset)
          (if isLast then byteAt tcp 13
            else byteAt tcp 13 &&& ~~~(TCP_FLAG_PSH ||| TCP_FLAG_FIN)) (get16 tcp 18)) := by
    cases isLast with
    | true => rfl
    | false => exact clearTcpFlags_stamped _ h
  rw [finalizeTcpHeader, require_bind_run, if_pos (by omega), modify_bind_run, stamped_seq,
    bind_run_some hclear]
  by_cases hfirst : segmentIndex = 0
  · rw [if_pos hfirst, decide_eq_true hfirst, pure_run]
    rfl
  · rw [if_neg hfirst, decide_eq_false hfirst, bind_run_some (clearTcpFlags_stamped _ h),
      rebaseUrgentPointer_stamped _ h]
    simp only [segmentFlags, segmentUrgPtr, Bool.false_eq_true, if_false, false_or]
    cases isLast <;> simp only [hurg, hurg', Bool.false_eq_true, if_true, if_false]

end

/-! ## The IPv4 Identification -/

/-- The Identification of a segment; of an IPv6 packet it is the payload length, which is
written over. -/
def segmentId (addrFamily : UInt8) (segmentIndex : UInt16) (ip : Bytes) : UInt16 :=
  if addrFamily = AF_INET ∧ byteAt ip 6 &&& 0x40 = 0 then get16 ip 4 + segmentIndex else get16 ip 4

theorem finalizeIpv4Id_run {ip tcp : Bytes} (addrFamily : UInt8) (segmentIndex : UInt16)
    (h : 20 ≤ ip.length) :
    (finalizeIpv4Id addrFamily segmentIndex).run (ip ++ tcp)
      = (some (), put16 ip 4 (segmentId addrFamily segmentIndex ip) ++ tcp) := by
  have hself : put16 ip 4 (get16 ip 4) ++ tcp = ip ++ tcp := by rw [put16_get16]
  have hflags : byteAt (ip ++ tcp) 6 = byteAt ip 6 := byteAt_append_left (by omega)
  have hid : get16 (ip ++ tcp) 4 = get16 ip 4 := by
    rw [get16, byteAt_append_left (by omega), byteAt_append_left (by omega)]
    rfl
  unfold finalizeIpv4Id segmentId
  by_cases hfam : addrFamily = AF_INET
  · by_cases hpos : 0 < segmentIndex
    · rw [if_pos ⟨hfam, hpos⟩, require_bind_run, if_pos (by rw [List.length_append]; omega),
        read_bind_run, hflags]
      by_cases hdf : byteAt ip 6 &&& 0x40 = 0
      · rw [if_pos hdf, if_pos ⟨hfam, hdf⟩, read_bind_run, hid,
          writeWord_run _ (by rw [List.length_append]; omega),
          Nat64.put16_append_left _ (by omega)]
      · rw [if_neg hdf, if_neg (fun hn => hdf hn.2), hself, pure_run]
    · obtain rfl : segmentIndex = 0 := by
        apply UInt16.toNat_inj.mp
        rw [UInt16.lt_iff_toNat_lt] at hpos
        exact Nat.eq_zero_of_not_pos hpos
      rw [if_neg (fun hn => hpos hn.2), UInt16.add_zero, ite_self, hself, pure_run]
  · rw [if_neg (fun hn => hfam hn.1), if_neg (fun hn => hfam hn.1), hself, pure_run]

/-- **`finalize_tcp_segment_headers`** behind an IP header. -/
theorem finalizeTcpSegmentHeaders_run {ip tcp : Bytes} (addrFamily : UInt8) (originalSeq : UInt32)
    (dataOffset : ℕ) (segmentIndex : UInt16) (isLast : Bool) (hip : 20 ≤ ip.length)
    (htcp : 20 ≤ tcp.length) :
    (finalizeTcpSegmentHeaders addrFamily ip.length originalSeq dataOffset segmentIndex
        isLast).run (ip ++ tcp)
      = (some (), put16 ip 4 (segmentId addrFamily segmentIndex ip)
          ++ stamped tcp (originalSeq + UInt32.ofNat dataOffset)
            (segmentFlags dataOffset (segmentIndex = 0) isLast (get16 tcp 18) (byteAt tcp 13))
            (segmentUrgPtr dataOffset (segmentIndex = 0) (get16 tcp 18) (byteAt tcp 13))) := by
  have htail := @onTail_append_run (put16 ip 4 (segmentId addrFamily segmentIndex ip)) tcp _
    (finalizeTcpHeader originalSeq dataOffset segmentIndex isLast)
  rw [length_put16, finalizeTcpHeader_run _ _ _ _ htcp] at htail
  rw [finalizeTcpSegmentHeaders, bind_run_some (finalizeIpv4Id_run _ _ hip), htail]

/-! ## The expected ports -/

/-- The ports `enforce_expected_ports` writes. -/
def setPorts (ports : Option (UInt16 × UInt16)) (l4 : ℕ) (p : Bytes) : Bytes :=
  setWord (l4 + 2) (ports.map Prod.snd) (setWord l4 (ports.map Prod.fst) p)

@[simp] theorem length_setPorts (ports : Option (UInt16 × UInt16)) (l4 : ℕ) (p : Bytes) :
    (setPorts ports l4 p).length = p.length := by
  rw [setPorts, length_setWord, length_setWord]

theorem byteAt_setPorts {ports : Option (UInt16 × UInt16)} {l4 i : ℕ} {p : Bytes}
    (h : i < l4 ∨ l4 + 4 ≤ i) : byteAt (setPorts ports l4 p) i = byteAt p i := by
  rw [setPorts, byteAt_setWord_of_disjoint _ (by omega), byteAt_setWord_of_disjoint _ (by omega)]

section

variable {hdr p : Bytes} {l4 : ℕ}

/-- A replaced port of a TCP segment, up to the checksum. -/
theorem replacePort_run {write : UInt16 → Edit Bytes Unit} (l4 off : ℕ) (family : ChecksumFamily)
    (new : UInt16) (hwrite : ∀ port, (write port).run p = (some (), put16 p off port))
    (hlen : l4 + 18 ≤ p.length) :
    ∃ c, (replacePort write l4 PROTO_TCP family (get16 p off) new).run p
      = (some (), put16 (put16 p off new) (l4 + 16) c) := by
  by_cases hsame : get16 p off = new
  · refine ⟨get16 p (l4 + 16), ?_⟩
    rw [replacePort, if_neg (not_not.mpr hsame), pure_run, ← hsame, put16_get16, put16_get16]
  · have hfits : l4 + 16 + 2 ≤ (put16 p off new).length := by rwa [length_put16]
    refine ⟨updatedField PROTO_TCP family true (fun current => checksum16Adjust current [get16 p off] [new])
      (get16 (put16 p off new) (l4 + 16)), ?_⟩
    rw [replacePort, if_pos hsame, bind_run_some (hwrite new)]
    exact adjustL4Checksum_run PROTO_TCP family true _ hfits

/-- **`enforce_expected_ports`** on a TCP frame whose headers are where they are looked for:
the ports, and some checksum. -/
theorem enforceExpectedPorts_run {addrFamily : UInt8} {family : ChecksumFamily}
    (ports : Option (UInt16 × UInt16)) (hfamily : checksumFamilyOf addrFamily = some family)
    (h3 : frameL3Offset (hdr ++ p) = some hdr.length)
    (h4 : frameL4Offset (hdr ++ p) addrFamily = some (hdr.length + l4))
    (hlen : l4 + 18 ≤ p.length) :
    ∃ r c, (enforceExpectedPorts addrFamily PROTO_TCP ports false).run (hdr ++ p)
      = (some r, hdr ++ put16 (setPorts ports l4 p) (l4 + 16) c) := by
  unfold enforceExpectedPorts
  cases ports with
  | none =>
    refine ⟨false, get16 p (l4 + 16), ?_⟩
    rw [setPorts, Option.map_none, Option.map_none, setWord, setWord, put16_get16]
    rfl
  | some ports =>
    obtain ⟨expectedSrc, expectedDst⟩ := ports
    have hsub : ∀ i, i + 2 ≤ 4 →
        get16 (sub (hdr ++ p) (hdr.length + l4) 4) i = get16 p (l4 + i) := by
      intro i hi
      rw [sub_append_right, get16, byteAt_sub _ _ (by omega), byteAt_sub _ _ (by omega),
        ← Nat.add_assoc]
      rfl
    dsimp only
    rw [if_neg (by decide), hfamily]
    dsimp only
    rw [check_bind_run h3,
      check_bind_run (f := fun frame => frameL4Offset frame addrFamily) h4,
      check_bind_run (f := fun frame => getRange frame (hdr.length + l4) 4)
        (getRange_of_le (by rw [List.length_append]; omega)),
      hsub 0 (by omega), hsub 2 (by omega), Nat.add_zero]
    by_cases hexp : get16 p l4 = expectedSrc ∧ get16 p (l4 + 2) = expectedDst
    · refine ⟨false, get16 p (l4 + 16), ?_⟩
      rw [if_pos hexp, pure_run, setPorts, Option.map_some, Option.map_some, setWord, setWord,
        ← hexp.1, ← hexp.2, put16_get16, put16_get16, put16_get16]
    · obtain ⟨c, hsrc⟩ := replacePort_run (p := p) l4 l4 family expectedSrc
        (fun port => writeL4SrcPort_run port (by omega)) hlen
      -- the destination port is behind the source port and in front of the checksum
      have hdst : get16 (put16 (put16 p l4 expectedSrc) (l4 + 16) c) (l4 + 2)
          = get16 p (l4 + 2) := by
        rw [get16_put16_of_disjoint (by omega), get16_put16_of_disjoint (by omega)]
      obtain ⟨c', hdst'⟩ := replacePort_run (p := put16 (put16 p l4 expectedSrc) (l4 + 16) c)
        l4 (l4 + 2) family expectedDst
        (fun port => writeL4DstPort_run port (by rw [length_put16, length_put16]; omega))
        (by rwa [length_put16, length_put16])
      rw [hdst] at hdst'
      refine ⟨true, c', ?_⟩
      rw [if_neg hexp, require_bind_run, if_pos (by omega), Nat.add_sub_cancel_left]
      have htail := @onTail_append_run hdr p _ (do
        replacePort (writeL4SrcPort l4) l4 PROTO_TCP family (get16 p l4) expectedSrc
        replacePort (writeL4DstPort l4) l4 PROTO_TCP family (get16 p (l4 + 2)) expectedDst)
      rw [bind_run_some hsrc, hdst'] at htail
      rw [bind_run_some htail, pure_run, setPorts, Option.map_some, Option.map_some, setWord, setWord]
      dsimp only
      rw [put16_put16_comm (b := put16 p l4 expectedSrc) (i := l4 + 16) (by omega), put16_put16]

end

/-! ## IPv4 segments -/

/-- A segment with its length, ports, addresses and TTL, in front of the checksums. -/
def emitted4 (plan : SegmentPlan) (skipTtl : Bool) (nat : NatDecision) (len : UInt16) (p : Bytes) :
    Bytes :=
  ttlDown skipTtl 8
    (natFields4 PROTO_TCP (inForce plan.eth.applyNat nat)
      (setPorts plan.enforcedPorts plan.ipHeaderLen (put16 p 2 len)))

/-- A packet with both checksums over it. -/
def withChecksums4 (ihl : ℕ) (q : Bytes) : Bytes :=
  put16 (put16 q 10 (fullHeaderChecksum ihl q)) (ihl + 16)
    (fullL4Checksum4 PROTO_TCP ihl (ihl + 16) q)

section

variable {hdr p : Bytes} {plan : SegmentPlan} {fpm : ForwardPacketMeta} {nat : NatDecision}

/-- The checksums of a packet do not depend on what the L4 field held. -/
theorem checksums4_run {q : Bytes} {ihl : ℕ} (c : UInt16) (hihl : 20 ≤ ihl)
    (hlen : ihl + 20 ≤ q.length) (hmax : q.length ≤ 65575) :
    (do onTail hdr.length (recomputeIpv4HeaderChecksum ihl)
        onTail hdr.length (recomputeL4ChecksumIpv4 ihl PROTO_TCP false)).run
        (hdr ++ put16 q (ihl + 16) c)
      = (some (), hdr ++ withChecksums4 ihl q) := by
  have hhead := @onTail_append_run hdr (put16 q (ihl + 16) c) _ (recomputeIpv4HeaderChecksum ihl)
  rw [recomputeIpv4HeaderChecksum_run (by rwa [length_put16]),
    fullHeaderChecksum_put16 (.inr (by omega)), put16_put16_comm (by omega)] at hhead
  -- for TCP a computed zero is sent as it is, whichever rule UDP follows
  have hl4 : (recomputeL4ChecksumIpv4 ihl PROTO_TCP false).run
      (put16 (put16 q 10 (fullHeaderChecksum ihl q)) (ihl + 16) c) = _ :=
    recomputeL4ChecksumIpv4_run (d := 16) rfl (by rwa [length_put16, length_put16])
      (by rwa [length_put16, length_put16])
  rw [fullL4Checksum4_put16_self, fullL4Checksum4_put16_header hihl (by omega), put16_put16] at hl4
  rw [bind_run_some hhead, onTail_append_run]
  dsimp only
  rw [hl4, withChecksums4]

/-- A condition on the packet behind a header. -/
theorem onTail_require_run (r : Bytes → Prop) [DecidablePred r] :
    (onTail hdr.length (require r)).run (hdr ++ p)
      = (if r p then some () else none, hdr ++ p) := by
  rw [onTail_append_run, require, check_run]

theorem onTail_writeWord_run {off : ℕ} (v : UInt16) (h : off + 2 ≤ p.length) :
    (onTail hdr.length (writeWord off v)).run (hdr ++ p) = (some (), hdr ++ put16 p off v) := by
  rw [onTail_append_run, writeWord_run v h]

/-- What a packet must be for its segment to be emitted: where its TCP header is, and that it
is no later fragment. -/
structure Emits4 (plan : SegmentPlan) (p : Bytes) : Prop where
  ihl : ipv4Ihl p 0 = plan.ipHeaderLen
  header : 20 ≤ plan.ipHeaderLen
  l4 : plan.ipHeaderLen + 20 ≤ p.length
  whole : ipv4IsNonFirstFragment p = false
  max : p.length ≤ 65575

theorem Emits4.put16_len (h : Emits4 plan p) (len : UInt16) : Emits4 plan (put16 p 2 len) where
  ihl := by rw [ipv4Ihl_put16 (by omega), h.ihl]
  header := h.header
  l4 := by rw [length_put16]; exact h.l4
  whole := by
    rw [ipv4IsNonFirstFragment, length_put16, get16_put16_of_disjoint (by omega)]
    exact h.whole
  max := by rw [length_put16]; exact h.max

/-- **`emit_ipv4_segment`** on a segment whose TTL lets it go on. -/
theorem emitIpv4Segment_run (len16 : ℕ → UInt16) (totalIpLen : ℕ) (h : Emits4 plan p)
    (hhdr : hdr.length = plan.ethLen) (h3 : ∀ x, frameL3Offset (hdr ++ x) = some hdr.length)
    (hfam : fpm.addrFamily = AF_INET) (hproto : fpm.protocol = PROTO_TCP)
    (httl : fabricIngress fpm = true ∨ 1 < byteAt p 8) :
    (emitIpv4Segment len16 plan fpm nat totalIpLen).run (hdr ++ p)
      = (some (), hdr ++ withChecksums4 plan.ipHeaderLen
          (emitted4 plan (fabricIngress fpm) nat (len16 totalIpLen) p)) := by
  have h' := h.put16_len (len16 totalIpLen)
  have hihl := h'.ihl
  have hl4 := h'.l4
  have h20 := h.header
  generalize hp : put16 p 2 (len16 totalIpLen) = p1 at h' hihl hl4
  have hgate : fabricIngress fpm = true ∨ 1 < byteAt p1 8 := by
    rwa [← hp, byteAt_put16_of_disjoint (by omega)]
  have h4 := frameL4Offset_v4 (h3 p1) (by omega) h'.whole
  rw [hihl] at h4
  obtain ⟨r, c, henforce⟩ := enforceExpectedPorts_run plan.enforcedPorts
    (show checksumFamilyOf AF_INET = some .v4 from rfl) (h3 p1) h4 (by omega)
  -- the ports are behind the header, so NAT finds the packet as it was
  generalize hx : setPorts plan.enforcedPorts plan.ipHeaderLen p1 = x at henforce
  have hlen : x.length = p1.length := by rw [← hx, length_setPorts]
  have hihlx : ipv4Ihl x 0 = plan.ipHeaderLen := by
    rw [← hx, ipv4Ihl, byteAt_setPorts (by omega), ← hihl, ipv4Ihl]
  have hihly : ipv4Ihl (put16 x (plan.ipHeaderLen + 16) c) 0 = plan.ipHeaderLen := by
    rw [ipv4Ihl_put16 (by omega), hihlx]
  have hfields : natFields4 PROTO_TCP (inForce plan.eth.applyNat nat)
      (put16 x (plan.ipHeaderLen + 16) c)
        = put16 (natFields4 PROTO_TCP (inForce plan.eth.applyNat nat) x)
            (plan.ipHeaderLen + 16) c :=
    natFields4_put16 (d := 16) rfl (by omega) (.inr (by rw [hihlx])) _
  have hnat := @applyInForce4_run hdr (put16 x (plan.ipHeaderLen + 16) c) PROTO_TCP 16
    plan.eth.applyNat nat rfl (by omega) (fun _ => by rw [length_put16]; omega)
  rw [hihly, hfields, put16_put16] at hnat
  have hlenq : (natFields4 PROTO_TCP (inForce plan.eth.applyNat nat) x).length = p1.length := by
    rw [length_natFields4, hlen]
  unfold emitIpv4Segment
  dsimp only
  rw [hfam, hproto, ← hhdr, bind_run_some (onTail_writeWord_run _ (by have := h.l4; omega)), hp,
    bind_run_some ((onTail_require_run _).trans (by rw [if_pos hgate])), bind_run_some henforce,
    bind_run_some hnat, bind_run_some (doIf_decrement_run _ 8), ttlDown_put16 (by omega),
    checksums4_run _ h20 (by rw [length_ttlDown]; omega)
      (by rw [length_ttlDown, hlenq]; exact h'.max),
    emitted4, hp, hx]

/-- A segment whose TTL has run out is declined. -/
theorem emitIpv4Segment_declined (len16 : ℕ → UInt16) (totalIpLen : ℕ)
    (hhdr : hdr.length = plan.ethLen) (hlen : 4 ≤ p.length)
    (httl : ¬(fabricIngress fpm = true ∨ 1 < byteAt p 8)) :
    (emitIpv4Segment len16 plan fpm nat totalIpLen).run (hdr ++ p)
      = (none, hdr ++ put16 p 2 (len16 totalIpLen)) := by
  have hgate : ¬(fabricIngress fpm = true ∨ 1 < byteAt (put16 p 2 (len16 totalIpLen)) 8) := by
    rwa [byteAt_put16_of_disjoint (by omega)]
  unfold emitIpv4Segment
  dsimp only
  rw [← hhdr, bind_run_some (onTail_writeWord_run _ (by omega)),
    bind_run_none ((onTail_require_run _).trans (by rw [if_neg hgate]))]

/-! ## IPv6 segments -/

/-- A segment with its length, ports, addresses and hop limit, in front of the checksum. -/
def emitted6 (plan : SegmentPlan) (skipTtl : Bool) (nat : NatDecision) (len : UInt16) (p : Bytes) :
    Bytes :=
  ttlDown skipTtl 7
    (natFields6 plan.ipHeaderLen PROTO_TCP (inForce plan.eth.applyNat nat)
      (setPorts plan.enforcedPorts plan.ipHeaderLen (put16 p 4 len)))

/-- A packet with its checksum over it. -/
def withChecksum6 (relL4 : ℕ) (q : Bytes) : Bytes :=
  put16 q (relL4 + 16) (fullL4Checksum6 PROTO_TCP relL4 (relL4 + 16) q)

/-- What a packet must be for its segment to be emitted: the walk finds its TCP header, and
meets no authentication header on its way. -/
structure Emits6 (plan : SegmentPlan) (p : Bytes) : Prop where
  header : 40 ≤ plan.ipHeaderLen
  walk : ∃ nextHeader, (walkIpv6ExtChain p 0).outcome = .l4 plan.ipHeaderLen nextHeader
  noAh : ipv6AhSighted p AF_INET6 0 = false
  l4 : plan.ipHeaderLen + 20 ≤ p.length
  max : p.length ≤ 65575

/-- Writes outside the extension headers leave the walk alone. -/
theorem Emits6.of_same (h : Emits6 plan p) {q : Bytes} (hlen : q.length = p.length)
    (hsame : ∀ i, i = 6 ∨ (40 ≤ i ∧ i < plan.ipHeaderLen) → byteAt q i = byteAt p i) :
    Emits6 plan q := by
  obtain ⟨nextHeader, hwalk⟩ := h.walk
  obtain ⟨hwalk', hah, -⟩ := walkIpv6ExtChain_shift (s := 0) hwalk hlen (hsame 6 (.inl rfl))
    fun i h1 h2 => hsame i (.inr ⟨by omega, h2⟩)
  refine ⟨h.header, ⟨nextHeader, hwalk'⟩, ?_, by rw [hlen]; exact h.l4, by rw [hlen]; exact h.max⟩
  have hno := h.noAh
  rw [ipv6AhSighted] at hno ⊢
  rw [hlen, hsame (0 + 6) (.inl rfl)]
  change (walkIpv6ExtChain q 0).ahPresent = (walkIpv6ExtChain p 0).ahPresent at hah
  rwa [hah]

/-- **`emit_ipv6_segment`** on a segment whose hop limit lets it go on. -/
theorem emitIpv6Segment_run (len16 : ℕ → UInt16) (chunkLen : ℕ) (h : Emits6 plan p)
    (hhdr : hdr.length = plan.ethLen) (h3 : ∀ x, frameL3Offset (hdr ++ x) = some hdr.length)
    (hfam : fpm.addrFamily = AF_INET6) (hproto : fpm.protocol = PROTO_TCP)
    (httl : fabricIngress fpm = true ∨ 1 < byteAt p 7) :
    (emitIpv6Segment len16 plan fpm nat chunkLen).run (hdr ++ p)
      = (some (), hdr ++ withChecksum6 plan.ipHeaderLen
          (emitted6 plan (fabricIngress fpm) nat
            (len16 (plan.ipHeaderLen - 40 + plan.tcpHeaderLen + chunkLen)) p)) := by
  have h40 := h.header
  have h' : Emits6 plan (put16 p 4
      (len16 (plan.ipHeaderLen - 40 + plan.tcpHeaderLen + chunkLen))) :=
    h.of_same (length_put16 _ _ _) fun i hi => byteAt_put16_of_disjoint (by omega)
  generalize hp : put16 p 4 (len16 (plan.ipHeaderLen - 40 + plan.tcpHeaderLen + chunkLen)) = p1 at h'
  have hgate : fabricIngress fpm = true ∨ 1 < byteAt p1 7 := by
    rwa [← hp, byteAt_put16_of_disjoint (by omega)]
  have hl4 := h'.l4
  obtain ⟨nextHeader, hwalk⟩ := h'.walk
  have h4 := frameL4Offset_v6 (h3 p1) hwalk
  obtain ⟨r, c, henforce⟩ := enforceExpectedPorts_run plan.enforcedPorts
    (show checksumFamilyOf AF_INET6 = some .v6 from rfl) (h3 p1) h4 (by omega)
  generalize hx : setPorts plan.enforcedPorts plan.ipHeaderLen p1 = x at henforce
  have hlen : x.length = p1.length := by rw [← hx, length_setPorts]
  have hx' : Emits6 plan (put16 x (plan.ipHeaderLen + 16) c) := by
    apply h'.of_same (by rw [length_put16, hlen])
    intro i hi
    rw [byteAt_put16_of_disjoint (by omega), ← hx, byteAt_setPorts (by omega)]
  have hnat := @applyInForce6_run hdr (put16 x (plan.ipHeaderLen + 16) c) PROTO_TCP 16
    plan.ipHeaderLen plan.eth.applyNat nat rfl h40 (by rw [length_put16]; omega) hx'.noAh
  rw [natFields6_put16 (d := 16) rfl h40, put16_put16] at hnat
  generalize hc : natChecksum6 plan.ipHeaderLen PROTO_TCP (inForce plan.eth.applyNat nat)
    (plan.ipHeaderLen + 16) (put16 x (plan.ipHeaderLen + 16) c) = c' at hnat
  generalize hq : natFields6 plan.ipHeaderLen PROTO_TCP (inForce plan.eth.applyNat nat) x = q at hnat
  have hlenq : (ttlDown (fabricIngress fpm) 7 q).length = p1.length := by
    rw [length_ttlDown, ← hq, length_natFields6, hlen]
  have hsum : (recomputeL4ChecksumIpv6 plan.ipHeaderLen PROTO_TCP).run
      (put16 (ttlDown (fabricIngress fpm) 7 q) (plan.ipHeaderLen + 16) c') = _ :=
    recomputeL4ChecksumIpv6_run (d := 16) rfl h40 (by rw [length_put16, hlenq]; exact hl4)
      (by rw [length_put16, hlenq]; exact h'.max)
  rw [fullL4Checksum6_put16_self, put16_put16] at hsum
  unfold emitIpv6Segment
  dsimp only
  rw [hfam, hproto, ← hhdr, bind_run_some (onTail_writeWord_run _ (by have := h.l4; omega)), hp,
    bind_run_some ((onTail_require_run _).trans (by rw [if_pos hgate])), bind_run_some henforce,
    bind_run_some hnat, bind_run_some (doIf_decrement_run _ 7), ttlDown_put16 (by omega),
    onTail_append_run, hsum, emitted6, hp, hx, hq, withChecksum6]

/-- A segment whose hop limit has run out is declined. -/
theorem emitIpv6Segment_declined (len16 : ℕ → UInt16) (chunkLen : ℕ)
    (hhdr : hdr.length = plan.ethLen) (hlen : 6 ≤ p.length)
    (httl : ¬(fabricIngress fpm = true ∨ 1 < byteAt p 7)) :
    (emitIpv6Segment len16 plan fpm nat chunkLen).run (hdr ++ p)
      = (none, hdr ++ put16 p 4
          (len16 (plan.ipHeaderLen - 40 + plan.tcpHeaderLen + chunkLen))) := by
  have hgate : ¬(fabricIngress fpm = true ∨ 1 < byteAt (put16 p 4
      (len16 (plan.ipHeaderLen - 40 + plan.tcpHeaderLen + chunkLen))) 7) := by
    rwa [byteAt_put16_of_disjoint (by omega)]
  unfold emitIpv6Segment
  dsimp only
  rw [← hhdr, bind_run_some (onTail_writeWord_run _ (by omega)),
    bind_run_none ((onTail_require_run _).trans (by rw [if_neg hgate]))]

end

end Xpf.Frames
