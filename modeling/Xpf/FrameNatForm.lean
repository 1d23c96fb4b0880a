/-
What the NAT leaves compute.

`apply_nat_ipv4` and `apply_nat_ipv6` write a field and update the checksum for it, field by
field. Here the two are taken apart: the packet is brought into the form `put16 b off c`, its
bytes with the L4 checksum `c` on top, and every step is a write to `b` next to an update of
`c`. What comes out is one packet with the new fields and one chain of updates.
-/
import Mathlib
import Xpf.FrameUpdates
import Xpf.FrameNat

set_option autoImplicit false

namespace Xpf.Frames

open Xpf.ByteBuffer Xpf.Edits Xpf.Edits.Edit Xpf.OnesComplement

/-! ## Words that are replaced -/

/-- The sum an update adds for words that leave and words that come. -/
def wordsDelta (old new : List UInt16) : ℕ := (old.map compl16).sum + (new.map UInt16.toNat).sum

theorem foldl_add_eq {α : Type} (f : α → ℕ) (xs : List α) (s : ℕ) :
    xs.foldl (fun sum x => sum + f x) s = s + (xs.map f).sum := by
  induction xs generalizing s with
  | nil => rfl
  | cons x xs ih =>
    rw [List.foldl_cons, ih, List.map_cons, List.sum_cons]
    omega

theorem checksum16Adjust_eq (c : UInt16) (old new : List UInt16) :
    checksum16Adjust c old new = checksum16Finish (compl16 c + wordsDelta old new) := by
  rw [checksum16Adjust, foldl_add_eq, foldl_add_eq, wordsDelta, Nat.add_assoc]

theorem addWordsDelta_eq {old new : List UInt16} (h : old.length = new.length) (s : ℕ) :
    addWordsDelta s old new = s + wordsDelta old new := by
  induction old generalizing new s with
  | nil =>
    obtain rfl := List.length_eq_zero_iff.mp h.symm
    rfl
  | cons o old ih =>
    cases new with
    | nil => simp at h
    | cons n new =>
      have hrest := ih (show old.length = new.length by simpa using h) (checksum16WordDelta s o n)
      rw [addWordsDelta] at hrest ⊢
      rw [List.zip_cons_cons, List.foldl_cons, hrest]
      simp only [checksum16WordDelta, wordsDelta, List.map_cons, List.sum_cons]
      omega

theorem length_ipv6Words (octets : Ipv6Addr) : (ipv6WordsFromOctets octets).length = 8 := rfl

theorem checksum16AdjustIpv6AddrBytes_eq (c : UInt16) (old new : Ipv6Addr) :
    checksum16AdjustIpv6AddrBytes c old new
      = checksum16Finish (compl16 c
          + wordsDelta (ipv6WordsFromOctets old) (ipv6WordsFromOctets new)) := by
  rw [checksum16AdjustIpv6AddrBytes,
    addWordsDelta_eq ((length_ipv6Words old).trans (length_ipv6Words new).symm)]

/-! ## The form of a packet -/

/-- The address field at `off` with an address that may not be there. -/
def setAddr {n : ℕ} (off : ℕ) : Option (Fin n → UInt8) → Bytes → Bytes
  | none, b => b
  | some addr, b => writeAt b off (List.ofFn addr)

/-- The word at `off` with a value that may not be there. -/
def setWord (off : ℕ) : Option UInt16 → Bytes → Bytes
  | none, b => b
  | some v, b => put16 b off v

/-- An update that may not be there. -/
def updOpt (protocol : UInt8) (family : ChecksumFamily) : Option ℕ → UInt16 → UInt16
  | none, c => c
  | some d, c => upd protocol family d c

/-- The update for a word: none when it stays what it is. -/
def wordDelta (old : UInt16) : Option UInt16 → Option ℕ
  | none => none
  | some new => if old ≠ new then some (wordsDelta [old] [new]) else none

@[simp] theorem length_setAddr {n : ℕ} (off : ℕ) (addr : Option (Fin n → UInt8)) (b : Bytes) :
    (setAddr off addr b).length = b.length := by
  cases addr with
  | none => rfl
  | some a => exact length_writeAt _ _ _

@[simp] theorem length_setWord (off : ℕ) (v : Option UInt16) (b : Bytes) :
    (setWord off v b).length = b.length := by
  cases v with
  | none => rfl
  | some w => exact length_put16 _ _ _

section

variable {b : Bytes} {off i : ℕ} {c : UInt16}

theorem setAddr_put16 {n : ℕ} (addr : Option (Fin n → UInt8)) (h : i + n ≤ off ∨ off + 2 ≤ i) :
    setAddr i addr (put16 b off c) = put16 (setAddr i addr b) off c := by
  cases addr with
  | none => rfl
  | some a => exact writeAt_put16_comm (by rwa [List.length_ofFn])

theorem setWord_put16 (v : Option UInt16) (h : i + 2 ≤ off ∨ off + 2 ≤ i) :
    setWord i v (put16 b off c) = put16 (setWord i v b) off c := by
  cases v with
  | none => rfl
  | some w => exact put16_put16_comm h

theorem get16_setWord_of_disjoint (v : Option UInt16) (h : off + 2 ≤ i ∨ i + 2 ≤ off) :
    get16 (setWord i v b) off = get16 b off := by
  cases v with
  | none => rfl
  | some w => exact get16_put16_of_disjoint h

theorem get16_setAddr_of_disjoint {n : ℕ} (addr : Option (Fin n → UInt8))
    (h : off + 2 ≤ i ∨ i + n ≤ off) : get16 (setAddr i addr b) off = get16 b off := by
  cases addr with
  | none => rfl
  | some a => exact get16_writeAt_of_disjoint (by rwa [List.length_ofFn])

theorem byteAt_setAddr_of_disjoint {n : ℕ} (addr : Option (Fin n → UInt8))
    (h : off < i ∨ i + n ≤ off) : byteAt (setAddr i addr b) off = byteAt b off := by
  cases addr with
  | none => rfl
  | some a => exact byteAt_writeAt_of_disjoint (by rwa [List.length_ofFn])

theorem byteAt_setWord_of_disjoint (v : Option UInt16) (h : off < i ∨ i + 2 ≤ off) :
    byteAt (setWord i v b) off = byteAt b off := by
  cases v with
  | none => rfl
  | some w => exact byteAt_put16_of_disjoint h

theorem ipv4At_put16_of_disjoint (h : i + 4 ≤ off ∨ off + 2 ≤ i) :
    ipv4At (put16 b off c) i = ipv4At b i := by
  funext k
  have hk := k.isLt
  exact byteAt_put16_of_disjoint (by omega)

theorem ipv6At_put16_of_disjoint (h : i + 16 ≤ off ∨ off + 2 ≤ i) :
    ipv6At (put16 b off c) i = ipv6At b i := by
  funext k
  have hk := k.isLt
  exact byteAt_put16_of_disjoint (by omega)

/-- **An update of the field on top.** -/
theorem adjustL4Checksum_form (protocol : UInt8) (family : ChecksumFamily) (skipZero : Bool)
    (update : UInt16 → UInt16) (h : off + 2 ≤ b.length) :
    (adjustL4Checksum (some off) protocol family skipZero update).run (put16 b off c)
      = (some (), put16 b off (updatedField protocol family skipZero update c)) := by
  rw [adjustL4Checksum_run _ _ _ _ (by rwa [length_put16]), get16_put16 c h, put16_put16]

/-- The updates with the rule for zero are `upd`. -/
theorem updatedField_adjust (protocol : UInt8) (family : ChecksumFamily) (old new : List UInt16) :
    updatedField protocol family true (fun c => checksum16Adjust c old new) c
      = upd protocol family (wordsDelta old new) c := by
  rw [updatedField, upd, bump, checksum16Adjust_eq, Bool.true_and]

theorem toBe_eq_zero {w : UInt16} : toBe w = [0, 0] ↔ w = 0 := by
  constructor
  · intro h
    have h' := fromBe_toBe w
    rw [h] at h'
    exact h'.symm
  · rintro rfl
    rfl

/-- The stored field is zero. -/
theorem getRange_put16_eq_zero (h : off + 2 ≤ b.length) :
    getRange (put16 b off c) off 2 = some [0, 0] ↔ c = 0 := by
  rw [getRange_of_le (by rwa [length_put16]), Option.some_inj]
  have hsub : sub (put16 b off c) off 2 = toBe c := by
    apply ext
    · rw [length_sub (by rwa [length_put16]), length_toBe]
    · intro j hj
      rw [length_sub (by rwa [length_put16])] at hj
      rw [byteAt_sub _ _ hj, put16, byteAt_writeAt, length_toBe, if_pos (by omega)]
      congr 1
      omega
  rw [hsub, toBe_eq_zero]

/-! ## Ports -/

theorem writeL4SrcPort_run {l4 : ℕ} (port : UInt16) (h : l4 + 2 ≤ b.length) :
    (writeL4SrcPort l4 port).run b = (some (), put16 b l4 port) := by
  rw [writeL4SrcPort, modify_run, if_pos h]

theorem writeL4DstPort_run {l4 : ℕ} (port : UInt16) (h : l4 + 2 + 2 ≤ b.length) :
    (writeL4DstPort l4 port).run b = (some (), put16 b (l4 + 2) port) := by
  rw [writeL4DstPort, modify_run, if_pos (by omega)]

/-- A port next to the checksum: written, and the update chained. -/
theorem rewritePort_form {write : UInt16 → Edit Bytes Unit} {l4 : ℕ} {protocol : UInt8}
    (family : ChecksumFamily) {d : ℕ} (hd : l4ChecksumFieldDeltaV4 protocol = some d)
    (hoff : off = l4 + d) (hlen : off + 2 ≤ b.length) (hi : i + 2 ≤ off)
    (hw : ∀ p, (write p).run (put16 b off c) = (some (), put16 (put16 b off c) i p))
    (port : Option UInt16) :
    (rewritePort write l4 i protocol family port).run (put16 b off c)
      = (some (), put16 (setWord i port b) off
          (updOpt protocol family (wordDelta (get16 b i) port) c)) := by
  cases port with
  | none => rfl
  | some new =>
    rw [rewritePort, read_bind_run, get16_put16_of_disjoint (by omega), replacePort, wordDelta]
    split_ifs with hne
    · rw [bind_run_some (hw new), put16_put16_comm (by omega), adjustL4ChecksumPort, hd]
      dsimp only [Option.map_some]
      rw [← hoff, adjustL4Checksum_form _ _ _ _ (by rwa [length_put16]), updatedField_adjust]
      rfl
    · rw [not_not] at hne
      rw [pure_run, updOpt, setWord, ← hne, put16_get16]

/-- The stored zero of an IPv6 UDP datagram whose ports are named. -/
def parity (protocol : UInt8) (family : ChecksumFamily) (nat : NatDecision) (c : UInt16) : UInt16 :=
  if family = .v6 ∧ protocol = PROTO_UDP
      ∧ (nat.rewriteSrcPort.isSome ∨ nat.rewriteDstPort.isSome) ∧ c = 0 then 0xFFFF
  else c

theorem portParity_form {l4 : ℕ} {protocol : UInt8} (family : ChecksumFamily) (nat : NatDecision)
    {d : ℕ} (hd : l4ChecksumFieldDeltaV4 protocol = some d) (hoff : off = l4 + d)
    (hlen : off + 2 ≤ b.length) :
    (portParity l4 protocol family nat).run (put16 b off c)
      = (some (), put16 b off (parity protocol family nat c)) := by
  unfold portParity parity
  by_cases h : family = .v6 ∧ protocol = PROTO_UDP
      ∧ (nat.rewriteSrcPort.isSome ∨ nat.rewriteDstPort.isSome)
  · obtain ⟨hf, hu, hn⟩ := h
    subst hu
    obtain rfl : 6 = d := Option.some.inj hd
    rw [if_pos ⟨hf, rfl, hn⟩, read_bind_run, ← hoff]
    by_cases hc : c = 0
    · rw [if_pos ((getRange_put16_eq_zero hlen).mpr hc), if_pos ⟨hf, rfl, hn, hc⟩,
        writeWord_run _ (by rwa [length_put16]), put16_put16]
    · rw [if_neg (fun h => hc ((getRange_put16_eq_zero hlen).mp h)),
        if_neg (fun h => hc h.2.2.2), pure_run]
  · rw [if_neg h, if_neg (fun h' => h ⟨h'.1, h'.2.1, h'.2.2.1⟩), pure_run]

/-- The two ports with their new values. -/
def natPorts (nat : NatDecision) (l4 : ℕ) (b : Bytes) : Bytes :=
  setWord (l4 + 2) nat.rewriteDstPort (setWord l4 nat.rewriteSrcPort b)

/-- The checksum after `apply_nat_port_rewrite`. -/
def natPortsChecksum (protocol : UInt8) (family : ChecksumFamily) (nat : NatDecision) (l4 : ℕ)
    (b : Bytes) (c : UInt16) : UInt16 :=
  parity protocol family nat
    (updOpt protocol family (wordDelta (get16 b (l4 + 2)) nat.rewriteDstPort)
      (updOpt protocol family (wordDelta (get16 b l4) nat.rewriteSrcPort) c))

/-- The protocols that have a field in both families have ports. -/
theorem fieldDeltaV4_cases {protocol : UInt8} {d : ℕ}
    (h : l4ChecksumFieldDeltaV4 protocol = some d) :
    (protocol = PROTO_TCP ∧ d = 16) ∨ (protocol = PROTO_UDP ∧ d = 6) := by
  unfold l4ChecksumFieldDeltaV4 at h
  split_ifs at h with h1 h2
  · exact .inl ⟨h1, (Option.some.inj h).symm⟩
  · exact .inr ⟨h2, (Option.some.inj h).symm⟩

theorem applyNatPortRewrite_form {l4 : ℕ} {protocol : UInt8} (family : ChecksumFamily)
    (nat : NatDecision) {d : ℕ} (hd : l4ChecksumFieldDeltaV4 protocol = some d)
    (hoff : off = l4 + d) (hlen : off + 2 ≤ b.length) :
    (applyNatPortRewrite l4 protocol family nat).run (put16 b off c)
      = (some (), put16 (natPorts nat l4 b) off (natPortsChecksum protocol family nat l4 b c)) := by
  have hports : hasL4Ports protocol = true := by
    rcases fieldDeltaV4_cases hd with ⟨rfl, -⟩ | ⟨rfl, -⟩ <;> rfl
  have hdge : 6 ≤ d := by
    rcases fieldDeltaV4_cases hd with ⟨-, rfl⟩ | ⟨-, rfl⟩ <;> omega
  have hsrc := rewritePort_form (c := c) family hd hoff hlen (show l4 + 2 ≤ off by omega)
    (fun p => writeL4SrcPort_run p (by rw [length_put16]; omega)) nat.rewriteSrcPort
  unfold applyNatPortRewrite
  rw [hports, Bool.not_true, if_neg Bool.false_ne_true, read_bind_run,
    if_neg (by rw [length_put16]; omega), bind_run_some hsrc]
  have hdst := rewritePort_form (b := setWord l4 nat.rewriteSrcPort b)
    (c := updOpt protocol family (wordDelta (get16 b l4) nat.rewriteSrcPort) c) family hd hoff
    (by rwa [length_setWord]) (show l4 + 2 + 2 ≤ off by omega)
    (fun p => writeL4DstPort_run p (by rw [length_put16, length_setWord]; omega))
    nat.rewriteDstPort
  rw [bind_run_some hdst, portParity_form family nat hd hoff (by simpa using hlen),
    get16_setWord_of_disjoint _ (by omega)]
  rfl

/-! ## ICMPv6 identifiers -/

/-- The identifier a decision gives an ICMPv6 message that has one. -/
def natIdent (nat : NatDecision) (l4 : ℕ) (b : Bytes) : Option UInt16 :=
  if l4 + 6 ≤ b.length ∧ icmpIdentifierBearing PROTO_ICMPV6 (byteAt b l4) then
    nat.rewriteSrcPort.or nat.rewriteDstPort
  else none

theorem writeIcmpIdentifier_form {l4 : ℕ} (newIdent : UInt16) (hoff : off = l4 + 2)
    (hin : l4 + 6 ≤ b.length) (htype : icmpIdentifierBearing PROTO_ICMPV6 (byteAt b l4) = true)
    (hne : get16 b (l4 + 4) ≠ newIdent) :
    (writeIcmpIdentifier l4 PROTO_ICMPV6 .v6 newIdent).run (put16 b off c)
      = (some true, put16 (put16 b (l4 + 4) newIdent) off
          (upd PROTO_ICMPV6 .v6 (wordsDelta [get16 b (l4 + 4)] [newIdent]) c)) := by
  subst hoff
  have hold : get16 (put16 b (l4 + 2) c) (l4 + 4) = get16 b (l4 + 4) :=
    get16_put16_of_disjoint (by omega)
  unfold writeIcmpIdentifier
  simp only [read_bind_run]
  rw [if_neg (fun h => h.2 rfl), if_neg (by rw [length_put16]; omega),
    byteAt_put16_of_disjoint (by omega), htype, Bool.not_true, if_neg Bool.false_ne_true, hold,
    if_neg hne, bind_run_some (writeWord_run _ (by rw [length_put16]; omega)),
    put16_put16_comm (by omega),
    bind_run_some (readWord_run (by rw [length_put16, length_put16]; omega)),
    get16_put16 c (by rw [length_put16]; omega),
    bind_run_some (writeWord_run _ (by rw [length_put16, length_put16]; omega)), pure_run,
    put16_put16, checksum16Adjust_eq]
  rfl

theorem applyNatIcmpIdentifierRewrite_form {l4 : ℕ} (nat : NatDecision) (hoff : off = l4 + 2) :
    (applyNatIcmpIdentifierRewrite l4 PROTO_ICMPV6 .v6 nat).run (put16 b off c)
      = (some (), put16 (setWord (l4 + 4) (natIdent nat l4 b) b) off
          (updOpt PROTO_ICMPV6 .v6 (wordDelta (get16 b (l4 + 4)) (natIdent nat l4 b)) c)) := by
  unfold applyNatIcmpIdentifierRewrite natIdent
  rw [if_neg (fun h => h.2 rfl)]
  cases hident : nat.rewriteSrcPort.or nat.rewriteDstPort with
  | none => simp only [ite_self, setWord, wordDelta, updOpt, pure_run]
  | some newIdent =>
    dsimp only
    by_cases hin : l4 + 6 ≤ b.length ∧ icmpIdentifierBearing PROTO_ICMPV6 (byteAt b l4)
    · rw [if_pos hin, wordDelta]
      by_cases hne : get16 b (l4 + 4) ≠ newIdent
      · rw [if_pos hne, bind_run_some (writeIcmpIdentifier_form newIdent hoff hin.1 hin.2 hne)]
        rfl
      · rw [not_not] at hne
        have hrun : (writeIcmpIdentifier l4 PROTO_ICMPV6 .v6 newIdent).run (put16 b off c)
            = (some false, put16 b off c) := by
          unfold writeIcmpIdentifier
          simp only [read_bind_run]
          rw [if_neg (fun h => h.2 rfl), if_neg (by rw [length_put16]; omega),
            byteAt_put16_of_disjoint (by omega), hin.2, Bool.not_true, if_neg Bool.false_ne_true,
            get16_put16_of_disjoint (by omega), if_pos hne, pure_run]
        rw [bind_run_some hrun, if_neg (not_not.mpr hne), pure_run, updOpt, setWord, ← hne,
          put16_get16]
    · rw [if_neg hin]
      have hrun : (writeIcmpIdentifier l4 PROTO_ICMPV6 .v6 newIdent).run (put16 b off c)
          = (some false, put16 b off c) := by
        unfold writeIcmpIdentifier
        simp only [read_bind_run]
        rw [if_neg (fun h => h.2 rfl), length_put16]
        by_cases hlen : b.length < l4 + 6
        · rw [if_pos hlen, pure_run]
        · rw [if_neg hlen, byteAt_put16_of_disjoint (by omega), if_pos, pure_run]
          simpa using fun h => hin ⟨by omega, h⟩
      rw [bind_run_some hrun]
      rfl

/-! ## Addresses -/

/-- The checksum after the address part of a leaf. -/
def natAddrsChecksum (protocol : UInt8) (family : ChecksumFamily) (src dst : Option ℕ)
    (c : UInt16) : UInt16 :=
  updOpt protocol family dst (updOpt protocol family src c)

/-- The update for an IPv4 address. -/
def addrDelta4 (b : Bytes) (off : ℕ) (new : Option Ipv4Addr) : Option ℕ :=
  new.map fun addr => wordsDelta (ipv4Words (ipv4At b off)) (ipv4Words addr)

/-- The update for an IPv6 address. -/
def addrDelta6 (b : Bytes) (off : ℕ) (new : Option Ipv6Addr) : Option ℕ :=
  new.map fun addr => wordsDelta (ipv6WordsFromOctets (ipv6At b off)) (ipv6WordsFromOctets addr)

theorem upd_of_not_optional {protocol : UInt8} {family : ChecksumFamily}
    (h : (l4UdpChecksumOptional protocol family && c == 0) = false) (d : ℕ) :
    upd protocol family d c = bump protocol family d c := by
  rw [upd, h]
  rfl

/-- Both IPv4 addresses in one update. -/
theorem updatedField_both {protocol : UInt8} {family : ChecksumFamily}
    (h : (l4UdpChecksumOptional protocol family && c == 0) = false)
    (oldSrc newSrc oldDst newDst : List UInt16) :
    updatedField protocol family false
        (fun c => checksum16Adjust (checksum16Adjust c oldSrc newSrc) oldDst newDst) c
      = upd protocol family (wordsDelta oldDst newDst)
          (upd protocol family (wordsDelta oldSrc newSrc) c) := by
  rw [upd_upd, upd_of_not_optional h, updatedField, Bool.false_and, Bool.false_and,
    if_neg Bool.false_ne_true, checksum16Adjust_eq, checksum16Adjust_eq, finish_compl_finish, bump,
    Nat.add_assoc]

theorem adjustBothIpv4_form {ihl : ℕ} {protocol : UInt8} {d : ℕ}
    (hd : l4ChecksumFieldDeltaV4 protocol = some d) (hoff : off = ihl + d)
    (hlen : off + 2 ≤ b.length) (oldSrc newSrc oldDst newDst : Ipv4Addr) :
    (adjustBothIpv4 ihl protocol oldSrc newSrc oldDst newDst).run (put16 b off c)
      = (some (), put16 b off
          (upd protocol .v4 (wordsDelta (ipv4Words oldDst) (ipv4Words newDst))
            (upd protocol .v4 (wordsDelta (ipv4Words oldSrc) (ipv4Words newSrc)) c))) := by
  have hadjust : (l4UdpChecksumOptional protocol .v4 && c == 0) = false →
      (adjustL4ChecksumIpv4 ihl protocol oldSrc newSrc oldDst newDst).run (put16 b off c)
        = (some (), put16 b off
          (upd protocol .v4 (wordsDelta (ipv4Words oldDst) (ipv4Words newDst))
            (upd protocol .v4 (wordsDelta (ipv4Words oldSrc) (ipv4Words newSrc)) c))) := by
    intro hopt
    rw [adjustL4ChecksumIpv4, hd, Option.map_some, ← hoff, adjustL4Checksum_form _ _ _ _ hlen,
      updatedField_both hopt]
  unfold adjustBothIpv4
  rcases fieldDeltaV4_cases hd with ⟨rfl, rfl⟩ | ⟨rfl, rfl⟩
  · rw [if_pos rfl, hadjust rfl]
  · rw [if_neg (by decide), if_pos rfl, read_bind_run, ← hoff]
    by_cases hc : c = 0
    · rw [if_pos (decide_eq_true ((getRange_put16_eq_zero hlen).mpr hc)), pure_run, upd_upd, upd,
        if_pos (by simp [hc, l4UdpChecksumOptional])]
    · rw [if_neg (by simpa using fun h => hc ((getRange_put16_eq_zero hlen).mp h)),
        hadjust (by simp [hc])]

/-- **The IPv4 addresses**, next to the checksum. -/
theorem applyNatIpv4Addrs_form {ihl : ℕ} {protocol : UInt8} {d : ℕ}
    (hd : l4ChecksumFieldDeltaV4 protocol = some d) (hoff : off = ihl + d)
    (hlen : off + 2 ≤ b.length) (hihl : 20 ≤ ihl) (src dst : Option Ipv4Addr) :
    (applyNatIpv4Addrs ihl protocol false src dst).run (put16 b off c)
      = (some (), put16 (setAddr 16 dst (setAddr 12 src b)) off
          (natAddrsChecksum protocol .v4 (addrDelta4 b 12 src) (addrDelta4 b 16 dst) c)) := by
  unfold applyNatIpv4Addrs
  rw [read_bind_run, read_bind_run, ipv4At_put16_of_disjoint (by omega),
    ipv4At_put16_of_disjoint (by omega)]
  have hone : ∀ (b' : Bytes) (old new : Ipv4Addr), b'.length = b.length →
      (adjustL4ChecksumIpv4Addr ihl protocol old new).run (put16 b' off c)
        = (some (), put16 b' off
            (upd protocol .v4 (wordsDelta (ipv4Words old) (ipv4Words new)) c)) := by
    intro b' old new hb'
    rw [adjustL4ChecksumIpv4Addr, adjustL4ChecksumIpv4Words, hd, Option.map_some, ← hoff,
      adjustL4Checksum_form _ _ _ _ (by omega), updatedField_adjust]
  cases src with
  | none =>
    cases dst with
    | none => rfl
    | some dst =>
      dsimp only
      rw [writeIpv4Dst, modify_bind_run, writeAt_put16_comm (by rw [List.length_ofFn]; omega),
        if_neg Bool.false_ne_true, hone _ _ _ (length_writeAt _ _ _)]
      rfl
  | some src =>
    cases dst with
    | none =>
      dsimp only
      rw [writeIpv4Src, modify_bind_run, writeAt_put16_comm (by rw [List.length_ofFn]; omega),
        if_neg Bool.false_ne_true, hone _ _ _ (length_writeAt _ _ _)]
      rfl
    | some dst =>
      dsimp only
      rw [writeIpv4Src, modify_bind_run, writeAt_put16_comm (by rw [List.length_ofFn]; omega),
        writeIpv4Dst, modify_bind_run, writeAt_put16_comm (by rw [List.length_ofFn]; omega),
        if_neg Bool.false_ne_true,
        adjustBothIpv4_form hd hoff (by rw [length_writeAt, length_writeAt]; omega)]
      rfl

/-- Every update of an IPv6 checksum is `upd`. -/
theorem updatedField_v6 (protocol : UInt8) (old new : List UInt16) :
    updatedField protocol .v6 false (fun c => checksum16Adjust c old new) c
      = upd protocol .v6 (wordsDelta old new) c := by
  rw [upd_of_not_optional rfl, updatedField, Bool.false_and, Bool.false_and,
    if_neg Bool.false_ne_true, checksum16Adjust_eq, bump]

theorem updatedField_v6_bytes (protocol : UInt8) (old new : Ipv6Addr) :
    updatedField protocol .v6 false (fun c => checksum16AdjustIpv6AddrBytes c old new) c
      = upd protocol .v6 (wordsDelta (ipv6WordsFromOctets old) (ipv6WordsFromOctets new)) c := by
  rw [upd_of_not_optional rfl, updatedField, Bool.false_and, Bool.false_and,
    if_neg Bool.false_ne_true, checksum16AdjustIpv6AddrBytes_eq, bump]

theorem fieldDeltaV6_cases {protocol : UInt8} {d : ℕ}
    (h : l4ChecksumFieldDeltaV6 protocol = some d) :
    l4ChecksumFieldDeltaV4 protocol = some d ∨ (protocol = PROTO_ICMPV6 ∧ d = 2) := by
  unfold l4ChecksumFieldDeltaV6 at h
  unfold l4ChecksumFieldDeltaV4
  split_ifs at h ⊢ with h1 h2 h3
  · exact .inl h
  · exact .inl h
  · exact .inr ⟨h3, (Option.some.inj h).symm⟩

theorem adjustBothIpv6_form {relL4 : ℕ} {protocol : UInt8} {d : ℕ}
    (hd : l4ChecksumFieldDeltaV6 protocol = some d) (hoff : off = relL4 + d)
    (hlen : off + 2 ≤ b.length) (oldSrc newSrc oldDst newDst : Ipv6Addr) :
    (adjustBothIpv6 relL4 protocol oldSrc newSrc oldDst newDst).run (put16 b off c)
      = (some (), put16 b off
          (upd protocol .v6 (wordsDelta (ipv6WordsFromOctets oldDst) (ipv6WordsFromOctets newDst))
            (upd protocol .v6
              (wordsDelta (ipv6WordsFromOctets oldSrc) (ipv6WordsFromOctets newSrc)) c))) := by
  have hproto : protocol = PROTO_TCP ∨ protocol = PROTO_UDP ∨ protocol = PROTO_ICMPV6 := by
    rcases fieldDeltaV6_cases hd with h | ⟨h, -⟩
    · rcases fieldDeltaV4_cases h with ⟨h, -⟩ | ⟨h, -⟩
      · exact .inl h
      · exact .inr (.inl h)
    · exact .inr (.inr h)
  have hone : ∀ (old new : List UInt16) (c : UInt16),
      (adjustL4ChecksumIpv6Words relL4 protocol old new).run (put16 b off c)
        = (some (), put16 b off (upd protocol .v6 (wordsDelta old new) c)) := by
    intro old new c
    rw [adjustL4ChecksumIpv6Words, hd, Option.map_some, ← hoff, adjustL4Checksum_form _ _ _ _ hlen,
      updatedField_v6]
  unfold adjustBothIpv6
  rw [if_pos hproto, bind_run_some (hone _ _ c), hone]

/-- **The IPv6 addresses**, next to the checksum; a neutral rewrite leaves it. -/
theorem applyNatIpv6Addrs_form {relL4 : ℕ} {protocol : UInt8} {d : ℕ}
    (hd : l4ChecksumFieldDeltaV6 protocol = some d) (hoff : off = relL4 + d)
    (hlen : off + 2 ≤ b.length) (hrel : 40 ≤ relL4) (skipL4Csum : Bool)
    (src dst : Option Ipv6Addr) :
    (applyNatIpv6Addrs relL4 protocol skipL4Csum src dst).run (put16 b off c)
      = (some (), put16 (setAddr 24 dst (setAddr 8 src b)) off
          (if skipL4Csum then c
            else natAddrsChecksum protocol .v6 (addrDelta6 b 8 src) (addrDelta6 b 24 dst) c)) := by
  unfold applyNatIpv6Addrs
  rw [read_bind_run, read_bind_run, ipv6At_put16_of_disjoint (by omega),
    ipv6At_put16_of_disjoint (by omega)]
  have hone : ∀ (b' : Bytes) (old new : Ipv6Addr), b'.length = b.length →
      (if skipL4Csum = true then pure () else adjustL4ChecksumIpv6AddrBytes relL4 protocol old new).run
          (put16 b' off c)
        = (some (), put16 b' off (if skipL4Csum then c
            else upd protocol .v6
              (wordsDelta (ipv6WordsFromOctets old) (ipv6WordsFromOctets new)) c)) := by
    intro b' old new hb'
    cases skipL4Csum with
    | true => rfl
    | false =>
      rw [if_neg Bool.false_ne_true, if_neg Bool.false_ne_true, adjustL4ChecksumIpv6AddrBytes, hd,
        Option.map_some, ← hoff, adjustL4Checksum_form _ _ _ _ (by omega), updatedField_v6_bytes]
  cases src with
  | none =>
    cases dst with
    | none =>
      dsimp only
      rw [pure_run]
      cases skipL4Csum <;> rfl
    | some dst =>
      dsimp only
      rw [writeIpv6Dst, modify_bind_run, writeAt_put16_comm (by rw [List.length_ofFn]; omega),
        hone _ _ _ (length_writeAt _ _ _)]
      rfl
  | some src =>
    cases dst with
    | none =>
      dsimp only
      rw [writeIpv6Src, modify_bind_run, writeAt_put16_comm (by rw [List.length_ofFn]; omega),
        hone _ _ _ (length_writeAt _ _ _)]
      rfl
    | some dst =>
      dsimp only
      rw [writeIpv6Src, modify_bind_run, writeAt_put16_comm (by rw [List.length_ofFn]; omega),
        writeIpv6Dst, modify_bind_run, writeAt_put16_comm (by rw [List.length_ofFn]; omega)]
      cases skipL4Csum with
      | true => rfl
      | false =>
        rw [if_neg Bool.false_ne_true, if_neg Bool.false_ne_true,
          adjustBothIpv6_form hd hoff (by rw [length_writeAt, length_writeAt]; omega)]
        rfl

/-! ## The leaves -/

/-- The L4 header with its new fields. -/
def natL4Fields (protocol : UInt8) (nat : NatDecision) (l4 : ℕ) (b : Bytes) : Bytes :=
  if hasL4Ports protocol then natPorts nat l4 b else setWord (l4 + 4) (natIdent nat l4 b) b

/-- The checksum after the L4 part of a leaf. -/
def natL4Checksum (protocol : UInt8) (family : ChecksumFamily) (nat : NatDecision) (l4 : ℕ)
    (b : Bytes) (c : UInt16) : UInt16 :=
  if hasL4Ports protocol then natPortsChecksum protocol family nat l4 b c
  else updOpt protocol family (wordDelta (get16 b (l4 + 4)) (natIdent nat l4 b)) c

theorem applyNatL4_form {l4 : ℕ} {protocol : UInt8} {family : ChecksumFamily} (nat : NatDecision)
    {d : ℕ} (hd : l4ChecksumFieldDeltaV4 protocol = some d
      ∨ (protocol = PROTO_ICMPV6 ∧ family = .v6 ∧ d = 2))
    (hoff : off = l4 + d) (hlen : off + 2 ≤ b.length) :
    (applyNatL4 l4 protocol family nat false).run (put16 b off c)
      = (some (), put16 (natL4Fields protocol nat l4 b) off
          (natL4Checksum protocol family nat l4 b c)) := by
  unfold applyNatL4 natL4Fields natL4Checksum
  rw [if_neg Bool.false_ne_true]
  rcases hd with hd | ⟨rfl, rfl, rfl⟩
  · have hports : hasL4Ports protocol = true := by
      rcases fieldDeltaV4_cases hd with ⟨rfl, -⟩ | ⟨rfl, -⟩ <;> rfl
    have hicmp : protocol ≠ PROTO_ICMP ∧ protocol ≠ PROTO_ICMPV6 := by
      rcases fieldDeltaV4_cases hd with ⟨rfl, -⟩ | ⟨rfl, -⟩ <;> decide
    rw [if_pos hports, if_pos hports, bind_run_some (applyNatPortRewrite_form family nat hd hoff hlen),
      applyNatIcmpIdentifierRewrite, if_pos hicmp, pure_run]
  · have hrun : (applyNatPortRewrite l4 PROTO_ICMPV6 .v6 nat).run (put16 b off c)
        = (some (), put16 b off c) := rfl
    rw [bind_run_some hrun, applyNatIcmpIdentifierRewrite_form nat hoff]
    rfl

/-- The packet with every field a decision names, IPv4. -/
def natFields4 (protocol : UInt8) (nat : NatDecision) (b : Bytes) : Bytes :=
  natL4Fields protocol nat (ipv4Ihl b 0)
    (setAddr 16 (ipv4Of nat.rewriteDst) (setAddr 12 (ipv4Of nat.rewriteSrc) b))

/-- The L4 checksum after `apply_nat_ipv4`, for the field at `off`. -/
def natChecksum4 (protocol : UInt8) (nat : NatDecision) (off : ℕ) (b : Bytes) : UInt16 :=
  natL4Checksum protocol .v4 nat (ipv4Ihl b 0) b
    (natAddrsChecksum protocol .v4 (addrDelta4 b 12 (ipv4Of nat.rewriteSrc))
      (addrDelta4 b 16 (ipv4Of nat.rewriteDst)) (get16 b off))

/-- What the L4 part reads lies behind what the address part writes. -/
theorem natL4Checksum_setAddr {n : ℕ} {protocol : UInt8} {family : ChecksumFamily}
    {nat : NatDecision} {l4 : ℕ} (addr : Option (Fin n → UInt8)) (h : i + n ≤ l4) :
    natL4Checksum protocol family nat l4 (setAddr i addr b) c
      = natL4Checksum protocol family nat l4 b c := by
  unfold natL4Checksum natPortsChecksum natIdent
  rw [get16_setAddr_of_disjoint addr (by omega), get16_setAddr_of_disjoint addr (by omega),
    get16_setAddr_of_disjoint addr (by omega), byteAt_setAddr_of_disjoint addr (by omega),
    length_setAddr]

/-- **`apply_nat_ipv4`** on a TCP or UDP packet: the new fields, and one chain of updates. -/
theorem applyNatIpv4_form {protocol : UInt8} {d : ℕ}
    (hd : l4ChecksumFieldDeltaV4 protocol = some d) (hihl : 20 ≤ ipv4Ihl b 0)
    (hlen : ipv4Ihl b 0 + d + 2 ≤ b.length) (nat : NatDecision) :
    (applyNatIpv4 protocol nat false).run b
      = (some (), put16 (natFields4 protocol nat b) (ipv4Ihl b 0 + d)
          (natChecksum4 protocol nat (ipv4Ihl b 0 + d) b)) := by
  have hports : hasL4Ports protocol = true := by
    rcases fieldDeltaV4_cases hd with ⟨rfl, -⟩ | ⟨rfl, -⟩ <;> rfl
  unfold applyNatIpv4
  by_cases hnat : nat = NatDecision.default
  · subst hnat
    rw [if_pos rfl, pure_run, natFields4, natChecksum4, natL4Fields, natL4Checksum, if_pos hports,
      if_pos hports]
    have hpar : ∀ c, parity protocol .v4 NatDecision.default c = c := fun c => by
      rw [parity, if_neg (by simp)]
    simp only [NatDecision.default, natPorts, ipv4Of, setWord, setAddr, natPortsChecksum, wordDelta,
      addrDelta4, Option.map_none, natAddrsChecksum, updOpt] at hpar ⊢
    rw [hpar, put16_get16]
  · rw [if_neg hnat, require_bind_run, if_pos (by omega), read_bind_run, require_bind_run,
      if_pos (by omega)]
    have haddrs := applyNatIpv4Addrs_form (b := b) (c := get16 b (ipv4Ihl b 0 + d)) hd rfl hlen hihl
      (ipv4Of nat.rewriteSrc) (ipv4Of nat.rewriteDst)
    rw [put16_get16] at haddrs
    rw [bind_run_some haddrs, applyNatL4_form nat (.inl hd) rfl (by simpa using hlen),
      natL4Checksum_setAddr _ (by omega), natL4Checksum_setAddr _ (by omega)]
    rfl

/-- The packet with every field a decision names, IPv6. -/
def natFields6 (relL4 : ℕ) (protocol : UInt8) (nat : NatDecision) (b : Bytes) : Bytes :=
  natL4Fields protocol nat relL4
    (setAddr 24 (ipv6Of nat.rewriteDst) (setAddr 8 (ipv6Of nat.rewriteSrc) b))

/-- The L4 checksum after `apply_nat_ipv6`, for the field at `off`. -/
def natChecksum6 (relL4 : ℕ) (protocol : UInt8) (nat : NatDecision) (off : ℕ) (b : Bytes) :
    UInt16 :=
  natL4Checksum protocol .v6 nat relL4 b
    (if !natFoldsL4Checksum nat then get16 b off
      else natAddrsChecksum protocol .v6 (addrDelta6 b 8 (ipv6Of nat.rewriteSrc))
        (addrDelta6 b 24 (ipv6Of nat.rewriteDst)) (get16 b off))

/-- **`apply_nat_ipv6`** on a TCP, UDP or ICMPv6 packet, without the ports when an
authentication header was seen. -/
theorem applyNatIpv6_form {relL4 : ℕ} {protocol : UInt8} {d : ℕ}
    (hd : l4ChecksumFieldDeltaV6 protocol = some d) (hrel : 40 ≤ relL4)
    (hlen : relL4 + d + 2 ≤ b.length) {nat nat' : NatDecision}
    (hnat' : nat' = stripPorts (ipv6AhSighted b AF_INET6 0) nat) :
    (applyNatIpv6 relL4 protocol nat false).run b
      = (some (), put16 (natFields6 relL4 protocol nat' b) (relL4 + d)
          (natChecksum6 relL4 protocol nat' (relL4 + d) b)) := by
  have hd' : l4ChecksumFieldDeltaV4 protocol = some d
      ∨ (protocol = PROTO_ICMPV6 ∧ ChecksumFamily.v6 = .v6 ∧ d = 2) := by
    rcases fieldDeltaV6_cases hd with h | ⟨h, h2⟩
    · exact .inl h
    · exact .inr ⟨h, rfl, h2⟩
  unfold applyNatIpv6
  rw [read_bind_run, ← hnat']
  by_cases hdef : nat' = NatDecision.default
  · have hfolds : natFoldsL4Checksum NatDecision.default = true := rfl
    rw [hdef, if_pos rfl, pure_run, natFields6, natChecksum6, natL4Fields, natL4Checksum, hfolds,
      Bool.not_true, if_neg Bool.false_ne_true]
    have hpar : ∀ c, parity protocol .v6 NatDecision.default c = c := fun c => by
      rw [parity, if_neg (by simp [NatDecision.default])]
    have hident : natIdent NatDecision.default relL4 b = none := by
      rw [natIdent]
      split_ifs <;> rfl
    simp only [NatDecision.default, natPorts, ipv6Of, setWord, setAddr, natPortsChecksum, wordDelta,
      addrDelta6, Option.map_none, natAddrsChecksum, updOpt] at hpar hident ⊢
    simp only [hpar, hident, setWord, wordDelta, updOpt, ite_self, put16_get16]
  · rw [if_neg hdef, require_bind_run, if_pos (by omega), Bool.or_false]
    have haddrs := applyNatIpv6Addrs_form (b := b) (c := get16 b (relL4 + d)) hd rfl hlen hrel
      (!natFoldsL4Checksum nat') (ipv6Of nat'.rewriteSrc) (ipv6Of nat'.rewriteDst)
    rw [put16_get16] at haddrs
    rw [bind_run_some haddrs, applyNatL4_form nat' hd' rfl (by simpa using hlen),
      natL4Checksum_setAddr _ (by omega), natL4Checksum_setAddr _ (by omega)]
    rfl

end

end Xpf.Frames
